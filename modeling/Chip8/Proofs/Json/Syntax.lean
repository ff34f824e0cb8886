import Chip8.Digit
import Chip8.Json.Text

/-!
# Written JSON values

The values of JSON as they are written, with every choice that a writer has but the blanks: the
escapes in strings, the form of numbers, the order of members.  A value is a sequence of tokens, and
a text of it has any blanks in front of every token.

* `Piece`, `Quoted` — strings piece by piece; `Quoted.characters?` are the characters that a string
  denotes, if it denotes any: halves of pairs have to stand together.
* `NumberForm` — numbers of any length; `NumberForm.natural?` is the value of a bare one.
* `Value` — values of any depth, and `Value.tokens` their tokens.
* `Spaced` — a text of some tokens.
-/

namespace Chip8
namespace Json

/-! ## Strings -/

/-- What a backslash and a single letter stand for. -/
inductive Escape where
  | quote
  | backslash
  | slash
  | backspace
  | formFeed
  | lineFeed
  | carriageReturn
  | tab
deriving DecidableEq, Repr

namespace Escape

/-- The letter behind the backslash. -/
def letter : Escape → UInt8
  | quote => Json.quote
  | backslash => Json.backslash
  | slash => ascii '/'
  | backspace => ascii 'b'
  | formFeed => ascii 'f'
  | lineFeed => ascii 'n'
  | carriageReturn => ascii 'r'
  | tab => ascii 't'

def meaning : Escape → Char
  | quote => .ofNat 0x22
  | backslash => .ofNat 0x5C
  | slash => '/'
  | backspace => .ofNat 0x08
  | formFeed => .ofNat 0x0C
  | lineFeed => .ofNat 0x0A
  | carriageReturn => .ofNat 0x0D
  | tab => .ofNat 0x09

end Escape

/-- A hexadecimal digit, written in either case. -/
structure HexSign where
  digit : Digit
  capital : Bool
deriving DecidableEq, Repr

def HexSign.byte (sign : HexSign) : UInt8 :=
  if sign.digit.val < 10 then UInt8.ofNat (0x30 + sign.digit.val)
  else if sign.capital then UInt8.ofNat (0x41 + (sign.digit.val - 10))
  else UInt8.ofNat (0x61 + (sign.digit.val - 10))

/-- The code unit of four hexadecimal digits. -/
def codeUnit (a b c d : HexSign) : Nat :=
  4096 * a.digit.val + 256 * b.digit.val + 16 * c.digit.val + d.digit.val

/-- Whether a character may stand for itself: it is no control character, quote or backslash. -/
def isPlain (letter : Char) : Bool :=
  0x20 ≤ letter.toNat && letter.toNat != 0x22 && letter.toNat != 0x5C

/-- A text of characters that may stand for themselves. -/
def IsPlainText (text : String) : Prop := text.toList.all isPlain = true

instance (text : String) : Decidable (IsPlainText text) :=
  inferInstanceAs (Decidable (text.toList.all isPlain = true))

/-- A piece of a string between its quotes. -/
inductive Piece where
  /-- A character that stands for itself. -/
  | plain (letter : Char) (hplain : isPlain letter = true)
  | short (escape : Escape)
  /-- A code unit in hexadecimal digits, which may be half of a pair. -/
  | unit (a b c d : HexSign)
deriving DecidableEq

def Piece.text : Piece → List UInt8
  | plain letter _ => String.utf8EncodeChar letter
  | short escape => [backslash, escape.letter]
  | unit a b c d => [backslash, ascii 'u', a.byte, b.byte, c.byte, d.byte]

/-- A string as it is written. -/
abbrev Quoted := List Piece

namespace Quoted

/-- The text of a string from behind its opening quote. -/
def body (string : Quoted) : List UInt8 := string.flatMap Piece.text ++ [quote]

def text (string : Quoted) : List UInt8 := quote :: string.body

/-- The characters that a string denotes; a half of a pair by itself denotes none. -/
def characters? : Quoted → Option (List Char)
  | [] => some []
  | .plain letter _ :: rest => (characters? rest).map (letter :: ·)
  | .short escape :: rest => (characters? rest).map (escape.meaning :: ·)
  | .unit a b c d :: rest =>
      let unit := codeUnit a b c d
      if isLowHalf unit then none
      else if isHighHalf unit then
        match rest with
        | .unit e f g h :: rest =>
            if isLowHalf (codeUnit e f g h) then
              (characters? rest).map (.ofNat (joinHalves unit (codeUnit e f g h)) :: ·)
            else none
        | _ => none
      else (characters? rest).map (.ofNat unit :: ·)

/-- The text that a string denotes. -/
def string? (string : Quoted) : Option String :=
  string.characters?.map String.ofList

/-- A text as a string without escapes. -/
def plain (name : String) (hplain : IsPlainText name) : Quoted :=
  name.toList.pmap Piece.plain (List.all_eq_true.mp hplain)

/-- A string denotes a text. -/
def Denotes (string : Quoted) : Prop := string.string?.isSome

instance (string : Quoted) : Decidable string.Denotes :=
  inferInstanceAs (Decidable (string.string?.isSome = true))

end Quoted

/-! ## Numbers -/

/-- One decimal digit or more. -/
structure Figures where
  first : Fin 10
  rest : List (Fin 10)
deriving DecidableEq, Repr

/-- The byte of a decimal digit. -/
def figure (digit : Fin 10) : UInt8 := UInt8.ofNat (0x30 + digit.val)

namespace Figures

def digits (figures : Figures) : List (Fin 10) := figures.first :: figures.rest

def text (figures : Figures) : List UInt8 := figures.digits.map figure

def value (figures : Figures) : Nat :=
  figures.digits.foldl (fun value digit => 10 * value + digit.val) 0

end Figures

inductive Sign where
  | plus
  | minus
deriving DecidableEq, Repr

def Sign.byte : Sign → UInt8
  | plus => 0x2B
  | minus => 0x2D

structure Exponent where
  capital : Bool
  sign : Option Sign
  figures : Figures
deriving DecidableEq, Repr

def Exponent.text (exponent : Exponent) : List UInt8 :=
  (if exponent.capital then ascii 'E' else ascii 'e') ::
    (exponent.sign.toList.map Sign.byte ++ exponent.figures.text)

/-- A number as it is written. -/
structure NumberForm where
  negative : Bool
  whole : Figures
  /-- A zero in front stands alone. -/
  trimmed : whole.first.val = 0 → whole.rest = []
  fraction : Option Figures
  exponent : Option Exponent
deriving DecidableEq

namespace NumberForm

def fractionText (form : NumberForm) : List UInt8 :=
  match form.fraction with
  | some figures => 0x2E :: figures.text
  | none => []

def exponentText (form : NumberForm) : List UInt8 :=
  match form.exponent with
  | some exponent => exponent.text
  | none => []

/-- The text of a number from behind its sign. -/
def unsignedText (form : NumberForm) : List UInt8 :=
  form.whole.text ++ (form.fractionText ++ form.exponentText)

def text (form : NumberForm) : List UInt8 :=
  if form.negative then Sign.minus.byte :: form.unsignedText else form.unsignedText

/-- The value of a number without sign, fraction and exponent. -/
def natural? (form : NumberForm) : Option Nat :=
  if form.negative || form.fraction.isSome || form.exponent.isSome then none
  else some form.whole.value

end NumberForm

/-! ## Values -/

/-- A value as it is written, but for the blanks. -/
inductive Value where
  | null
  | truth (value : Bool)
  | number (form : NumberForm)
  | string (string : Quoted)
  | array (items : List Value)
  | object (members : List (Quoted × Value))

/-- A token is the sequence of its bytes. -/
abbrev Token := List UInt8

/-- The comma in front of every entry but the first. -/
def separator (isFirst : Bool) : List Token :=
  if isFirst then [] else [[comma]]

mutual

/-- The tokens of a value in order. -/
def Value.tokens : Value → List Token
  | .null => [asciiWord "null"]
  | .truth true => [asciiWord "true"]
  | .truth false => [asciiWord "false"]
  | .number form => [form.text]
  | .string string => [string.text]
  | .array items => [openBracket] :: itemTokens true items
  | .object members => [openBrace] :: memberTokens true members

/-- The tokens of an array from behind its bracket or from behind one of its items. -/
def itemTokens (isFirst : Bool) : List Value → List Token
  | [] => [[closeBracket]]
  | item :: rest => separator isFirst ++ (item.tokens ++ itemTokens false rest)

/-- The tokens of an object from behind its brace or from behind one of its members. -/
def memberTokens (isFirst : Bool) : List (Quoted × Value) → List Token
  | [] => [[closeBrace]]
  | (key, value) :: rest =>
      separator isFirst ++ (key.text :: [colon] :: (value.tokens ++ memberTokens false rest))

end

/-! ## Texts -/

/-- A text of nothing but blanks. -/
def Blank (text : List UInt8) : Prop := ∀ byte ∈ text, isBlank byte = true

/-- A text of some tokens, with any blanks in front of every token. -/
inductive Spaced : List Token → List UInt8 → Prop
  | nil : Spaced [] []
  | cons {blanks token : List UInt8} {tokens : List Token} {text : List UInt8}
      (hblanks : Blank blanks) (htext : Spaced tokens text) :
      Spaced (token :: tokens) (blanks ++ (token ++ text))

end Json
end Chip8
