import TradeWatch.Lib.Json
import TradeWatch.Lib.PyFloat

/-!
Python's conversions between decoded JSON values, numbers and text. What text
`float` reads, which integers it refuses and how containers print is left open;
the exceptions are Python's.
-/

open PyFloat

structure PyText (F : Type) [PyFloat F] where
  /-- `float(text)`: `none` where it raises a `ValueError`. -/
  parse : String → Option F
  /-- The integer is beyond every float. -/
  tooLarge : ℤ → Bool
  nan : F
  infinity : Bool → F
  /-- `str` of a list or a dictionary. -/
  container : Json → String
  /-- How many containers `json.loads` opens inside each other. -/
  nesting : ℕ+

namespace PyText

variable {F : Type} [PyFloat F] (py : PyText F)

def ofLiteral : FloatLiteral → F
  | .finite q => ofRat q
  | .nan => py.nan
  | .infinity negative => py.infinity negative

/-- `float(value)`. -/
def float : Json → Except PyError F
  | .null => .error .typeError
  | .bool b => .ok (ofRat (if b then 1 else 0))
  | .int n => if py.tooLarge n then .error .overflowError else .ok (ofRat n)
  | .float x => .ok (py.ofLiteral x)
  | .str text =>
      match py.parse text with
      | none => .error .valueError
      | some x => .ok x
  | .surrogates => .error .valueError
  | .list _ => .error .typeError
  | .dict _ => .error .typeError

/-- `str(value)`: `none` for a text that no encoding carries. -/
def str : Json → Option String
  | .null => some "None"
  | .bool b => some (if b then "True" else "False")
  | .int n => some (toString n)
  | .float x => some (format (py.ofLiteral x) .plain)
  | .str text => some text
  | .surrogates => none
  | .list items => some (py.container (.list items))
  | .dict entries => some (py.container (.dict entries))

/-- `value[key]` with a string key. -/
def getItem (key : String) : Json → Except PyError Json
  | .dict entries =>
      match Json.lookup key entries with
      | none => .error .keyError
      | some value => .ok value
  | _ => .error .typeError

/-- What Python documents of the text of a float: `float` reads it back, and it
is one word. -/
structure ReadsBack (x : F) : Prop where
  parse_format : py.parse (format x .plain) = some x
  no_tab : '\t' ∉ (format x .plain).toList
  no_newline : '\n' ∉ (format x .plain).toList

end PyText

/-- Decimal text, read exactly. -/
def PyText.decimal : PyText ℚ where
  parse text :=
    match Json.parse text with
    | some (.int n) => some n
    | some (.float (.finite q)) => some q
    | _ => none
  tooLarge _ := false
  nan := 0
  infinity _ := 0
  container _ := ""
  nesting := 1000

/-- The conversions among the real numbers, where the values are rational. -/
noncomputable def PyText.toReal (py : PyText ℚ) : PyText ℝ where
  parse text := (py.parse text).map (fun q => (q : ℝ))
  tooLarge := py.tooLarge
  nan := py.nan
  infinity negative := py.infinity negative
  container := py.container
  nesting := py.nesting

namespace PyText

variable (py : PyText ℚ)

theorem nesting_toReal : py.toReal.nesting = py.nesting := rfl

theorem ofLiteral_toReal (x : FloatLiteral) : py.toReal.ofLiteral x = (py.ofLiteral x : ℚ) := by
  cases x <;> rfl

theorem float_toReal (value : Json) :
    py.toReal.float value = (py.float value).map (fun q => (q : ℝ)) := by
  cases value with
  | bool b => cases b <;> simp [float, Except.map, ofRat]
  | int n =>
      cases htoo : py.tooLarge n <;> simp [float, toReal, htoo, Except.map, ofRat]
  | float x => simp [float, Except.map, ofLiteral_toReal]
  | str text =>
      unfold float
      dsimp only [toReal]
      cases py.parse text <;> rfl
  | _ => rfl

theorem str_toReal (value : Json) : py.toReal.str value = py.str value := by
  cases value with
  | float x => simp only [str, ofLiteral_toReal, format_cast]
  | _ => rfl

end PyText
