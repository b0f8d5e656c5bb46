import Mathlib.Data.Rat.Defs
import Mathlib.Tactic

/-!
JSON values and the decoder of Python's `json` module. The text goes through
two machines, one character and one token at a time, so that decoding is total
and runs: `Json.Lexer` cuts it into tokens, `Json.Parser` builds the value with
the open containers on a stack. Beyond the standard grammar the decoder takes
`NaN` and the infinities, as Python does by default.
-/

/-- The value of a number with a fraction or an exponent, and the constants
that are no numbers. -/
inductive FloatLiteral
  | finite (q : ℚ)
  | nan
  | infinity (negative : Bool)
  deriving DecidableEq, Repr

/-- What a JSON text decodes to. A string that escapes spell with a lone
surrogate is no Unicode text; it is set apart as `surrogates`. -/
inductive Json
  | null
  | bool (b : Bool)
  | int (n : ℤ)
  | float (x : FloatLiteral)
  | str (text : String)
  | surrogates
  | list (items : List Json)
  | dict (entries : List (String × Json))

namespace Json

/-- The item of a dictionary: of a repeated key the last. -/
def lookup (key : String) (entries : List (String × Json)) : Option Json :=
  ((entries.reverse.find? (fun entry => entry.1 = key))).map Prod.snd

inductive Token
  | braceLeft
  | braceRight
  | bracketLeft
  | bracketRight
  | colon
  | comma
  | leaf (value : Json)

section Numbers

def digitsValue (digits : List Char) : ℕ :=
  digits.foldl (fun n c => 10 * n + (c.toNat - '0'.toNat)) 0

/-- The digits in front, and what follows them. -/
def spanDigits (chars : List Char) : List Char × List Char := chars.span Char.isDigit

/-- The digits after a point, at least one; none without a point. -/
def fraction? : List Char → Option (List Char × List Char)
  | '.' :: rest =>
      match spanDigits rest with
      | ([], _) => none
      | (digits, rest) => some (digits, rest)
  | rest => some ([], rest)

/-- The exponent up to the end of the word, zero without one. -/
def exponent? : List Char → Option ℤ
  | [] => some 0
  | e :: rest =>
      if e = 'e' ∨ e = 'E' then
        let (negative, rest) :=
          match rest with
          | '-' :: rest => (true, rest)
          | '+' :: rest => (false, rest)
          | rest => (false, rest)
        match spanDigits rest with
        | ([], _) => none
        | (digits, []) =>
            some (if negative then -(digitsValue digits : ℤ) else digitsValue digits)
        | (_, _) => none
      else none

/-- An unsigned number. Python converts no integer of more than 4300 digits. -/
def number? (negative : Bool) (chars : List Char) : Option Json :=
  let sign : ℤ := if negative then -1 else 1
  match spanDigits chars with
  | ([], _) => none
  | (whole, rest) =>
      if whole.length > 1 ∧ whole.head? = some '0' then none
      else if rest = [] then
        if 4300 < whole.length then none else some (.int (sign * digitsValue whole))
      else do
        let (digits, rest) ← fraction? rest
        let exponent ← exponent? rest
        let mantissa : ℚ := digitsValue (whole ++ digits)
        some (.float (.finite (sign * mantissa * (10 : ℚ) ^ (exponent - digits.length))))

end Numbers

/-- A literal or a number. -/
def word? (chars : List Char) : Option Json :=
  match chars with
  | ['n', 'u', 'l', 'l'] => some .null
  | ['t', 'r', 'u', 'e'] => some (.bool true)
  | ['f', 'a', 'l', 's', 'e'] => some (.bool false)
  | ['N', 'a', 'N'] => some (.float .nan)
  | ['I', 'n', 'f', 'i', 'n', 'i', 't', 'y'] => some (.float (.infinity false))
  | ['-', 'I', 'n', 'f', 'i', 'n', 'i', 't', 'y'] => some (.float (.infinity true))
  | '-' :: rest => number? true rest
  | chars => number? false chars

/-- The characters of a string so far, last first, the high half of a
surrogate pair that waits for its low half, and whether a half was left alone. -/
structure Draft where
  chars : List Char
  high : Option ℕ
  broken : Bool

namespace Draft

def empty : Draft := ⟨[], none, false⟩

def push (d : Draft) (c : Char) : Draft := ⟨c :: d.chars, none, d.broken || d.high.isSome⟩

/-- The code unit of a `\u` escape. -/
def pushUnit (d : Draft) (unit : ℕ) : Draft :=
  if 0xD800 ≤ unit ∧ unit < 0xDC00 then
    { d with high := some unit, broken := d.broken || d.high.isSome }
  else if 0xDC00 ≤ unit ∧ unit < 0xE000 then
    match d.high with
    | some high =>
        ⟨.ofNat (0x10000 + 0x400 * (high - 0xD800) + (unit - 0xDC00)) :: d.chars, none, d.broken⟩
    | none => { d with broken := true }
  else d.push (.ofNat unit)

def finish (d : Draft) : Json :=
  if d.broken || d.high.isSome then .surrogates else .str (.ofList d.chars.reverse)

end Draft

/-- The lexer: between tokens, in a literal or number (last character first),
in a string, after a backslash, or in a `\u` escape with the digits to come. -/
inductive Lexer
  | between
  | word (chars : List Char)
  | string (draft : Draft)
  | escape (draft : Draft)
  | unicode (draft : Draft) (missing unit : ℕ)

namespace Lexer

def punctuation : Char → Option Token
  | '{' => some .braceLeft
  | '}' => some .braceRight
  | '[' => some .bracketLeft
  | ']' => some .bracketRight
  | ':' => some .colon
  | ',' => some .comma
  | _ => none

def isBlank (c : Char) : Bool := c = ' ' || c = '\t' || c = '\n' || c = '\r'

def simpleEscape : Char → Option Char
  | '"' => some '"'
  | '\\' => some '\\'
  | '/' => some '/'
  | 'b' => some (.ofNat 8)
  | 'f' => some (.ofNat 12)
  | 'n' => some '\n'
  | 'r' => some '\r'
  | 't' => some '\t'
  | _ => none

def hexDigit (c : Char) : Option ℕ :=
  if '0' ≤ c ∧ c ≤ '9' then some (c.toNat - '0'.toNat)
  else if 'a' ≤ c ∧ c ≤ 'f' then some (c.toNat - 'a'.toNat + 10)
  else if 'A' ≤ c ∧ c ≤ 'F' then some (c.toNat - 'A'.toNat + 10)
  else none

/-- A character between two tokens. -/
def start (c : Char) : List Token × Lexer :=
  match punctuation c with
  | some token => ([token], .between)
  | none => if c = '"' then ([], .string .empty) else if isBlank c then ([], .between)
      else ([], .word [c])

/-- One character: the tokens it completes and the next state, `none` where the
text is no JSON. -/
def step : Lexer → Char → Option (List Token × Lexer)
  | .between, c => some (start c)
  | .word chars, c =>
      if isBlank c || c = '"' || (punctuation c).isSome then do
        let value ← word? chars.reverse
        let (tokens, state) := start c
        some (.leaf value :: tokens, state)
      else some ([], .word (c :: chars))
  | .string draft, c =>
      if c = '"' then some ([.leaf draft.finish], .between)
      else if c = '\\' then some ([], .escape draft)
      else if c.toNat < 0x20 then none
      else some ([], .string (draft.push c))
  | .escape draft, c =>
      if c = 'u' then some ([], .unicode draft 4 0)
      else (simpleEscape c).map (fun escaped => ([], .string (draft.push escaped)))
  | .unicode draft missing unit, c => do
      let digit ← hexDigit c
      let unit := 16 * unit + digit
      some (if missing ≤ 1 then ([], .string (draft.pushUnit unit))
        else ([], .unicode draft (missing - 1) unit))

def run : Lexer → List Char → Option (List Token)
  | .between, [] => some []
  | .word chars, [] => (word? chars.reverse).map (fun value => [.leaf value])
  | .string _, [] => none
  | .escape _, [] => none
  | .unicode _ _ _, [] => none
  | state, c :: rest => do
      let (tokens, state) ← state.step c
      let later ← run state rest
      some (tokens ++ later)

end Lexer

/-- An open container, its items last first; of a dictionary also the key that
waits for its value. -/
inductive Frame
  | list (items : List Json)
  | dict (entries : List (String × Json)) (key : Option String)

/-- What the parser expects next. -/
inductive Expect
  | value
  | valueOrClose
  | keyOrClose
  | key
  | colon
  | commaOrClose
  | nothing (value : Json)

structure Parser where
  stack : List Frame
  expect : Expect

namespace Parser

/-- A value is complete: it is an item of the innermost container, or the
whole. An entry under a key that is no Unicode text is under no name anybody
can ask for. -/
def complete (value : Json) : List Frame → Parser
  | [] => ⟨[], .nothing value⟩
  | .list items :: rest => ⟨.list (value :: items) :: rest, .commaOrClose⟩
  | .dict entries (some key) :: rest =>
      ⟨.dict ((key, value) :: entries) none :: rest, .commaOrClose⟩
  | .dict entries none :: rest => ⟨.dict entries none :: rest, .commaOrClose⟩

def takeValue (stack : List Frame) : Token → Option Parser
  | .leaf value => some (complete value stack)
  | .bracketLeft => some ⟨.list [] :: stack, .valueOrClose⟩
  | .braceLeft => some ⟨.dict [] none :: stack, .keyOrClose⟩
  | _ => none

def takeKey : List Frame → Token → Option Parser
  | .dict entries _ :: rest, .leaf (.str key) => some ⟨.dict entries (some key) :: rest, .colon⟩
  | .dict entries _ :: rest, .leaf .surrogates => some ⟨.dict entries none :: rest, .colon⟩
  | _, _ => none

def close : List Frame → Token → Option Parser
  | .list items :: rest, .bracketRight => some (complete (.list items.reverse) rest)
  | .dict entries _ :: rest, .braceRight => some (complete (.dict entries.reverse) rest)
  | _, _ => none

/-- What may follow a comma. -/
def afterComma : List Frame → Option Parser
  | .list items :: rest => some ⟨.list items :: rest, .value⟩
  | .dict entries _ :: rest => some ⟨.dict entries none :: rest, .key⟩
  | [] => none

def step (p : Parser) (token : Token) : Option Parser :=
  match p.expect with
  | .value => takeValue p.stack token
  | .valueOrClose =>
      match token with
      | .bracketRight => close p.stack token
      | token => takeValue p.stack token
  | .keyOrClose =>
      match token with
      | .braceRight => close p.stack token
      | token => takeKey p.stack token
  | .key => takeKey p.stack token
  | .colon =>
      match token with
      | .colon => some ⟨p.stack, .value⟩
      | _ => none
  | .commaOrClose =>
      match token with
      | .comma => afterComma p.stack
      | token => close p.stack token
  | .nothing _ => none

def run : Parser → List Token → Option Json
  | ⟨[], .nothing value⟩, [] => some value
  | _, [] => none
  | p, token :: rest => do
      let p ← p.step token
      run p rest

end Parser

/-- The value of a JSON text, however deep its containers are nested: `none` where the
decoder raises a `ValueError`. -/
def parse (text : String) : Option Json := do
  let tokens ← Lexer.run .between text.toList
  Parser.run ⟨[], .value⟩ tokens

end Json
