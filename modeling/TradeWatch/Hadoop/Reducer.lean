import TradeWatch.Lib.PyText

/-!
The streaming reducer: a loop that collects the rows of one symbol until the
next symbol begins, and then judges them against their own statistics. Lines
that are no record are passed over.
-/

namespace TradeWatch.Reducer

open PyFloat

variable {F : Type} [PyFloat F]

/-- The thresholds that the environment sets. -/
structure Thresholds (F : Type) [PyFloat F] where
  priceZ : F := ofRat 3
  volRatio : F := ofRat 6
  minTrades : ℤ := 20

inductive Label
  | zscore
  | volumeSpike
  deriving DecidableEq, Repr

/-- The statistics of one symbol's rows. -/
structure Statistics (F : Type) where
  mean : F
  std : F
  qmean : F

/-- What `flush` computes before it writes anything. -/
def statistics (rows : List (F × F)) : Except PyError (Statistics F) := do
  let prices := rows.map Prod.fst
  let n := prices.length
  let mean ← trueDiv (sum prices) (ofRat n)
  let var ←
    if 1 < n then do
      let squares ← prices.mapM (fun p => pow2 (sub p mean))
      trueDiv (sum squares) (ofRat (n - 1 : ℕ))
    else pure (ofRat 0)
  let std ← mathSqrt var
  let qmean ← trueDiv (sum (rows.map Prod.snd)) (ofRat n)
  pure ⟨mean, std, qmean⟩

def zOf (stats : Statistics F) (price : F) : F :=
  if lt (ofRat (1 / 1000000000000)) stats.std then div (sub price stats.mean) stats.std
  else ofRat 0

def ratioOf (stats : Statistics F) (qty : F) : F :=
  if lt (ofRat 0) stats.qmean then div qty stats.qmean else ofRat 0

/-- The label of one row and the score behind it. -/
def verdict (env : Thresholds F) (stats : Statistics F) (row : F × F) : Option (Label × F) :=
  let z := zOf stats row.1
  let ratio := ratioOf stats row.2
  if le env.priceZ (PyFloat.abs z) then some (.zscore, z)
  else if le env.volRatio ratio then some (.volumeSpike, ratio)
  else none

/-- The line that is written for a labelled row. -/
def lineOf (symbol : String) (row : F × F) : Label × F → List Char
  | (.zscore, z) =>
      (symbol ++ "\tzscore\t" ++ format row.1 (.fixed 4) ++ "\t" ++ format row.2 (.fixed 2) ++
        "\t" ++ format z (.fixed 2)).toList
  | (.volumeSpike, ratio) =>
      (symbol ++ "\tvolume_spike\t" ++ format row.1 (.fixed 4) ++ "\t" ++
        format row.2 (.fixed 2) ++ "\t" ++ format ratio (.fixed 1)).toList

/-- `flush`. -/
def flush (env : Thresholds F) (symbol : Option String) (rows : List (F × F)) :
    Except PyError (List (List Char)) :=
  match symbol with
  | none => .ok []
  | some symbol =>
      if (rows.length : ℤ) < env.minTrades then .ok []
      else do
        let stats ← statistics rows
        pure (rows.filterMap (fun row => (verdict env stats row).map (lineOf symbol row)))

variable (py : PyText F)

/-- The record on a line, if it is one. -/
def parseLine (line : List Char) : Option (String × F × F) :=
  if line.isEmpty then none
  else
    match line.splitOn '\t' with
    | [symbol, price, qty] => do
        let price ← py.parse (.ofList price)
        let qty ← py.parse (.ofList qty)
        pure (.ofList symbol, price, qty)
    | _ => none

/-- A parsed line has three pieces: the symbol and two numbers. -/
theorem parseLine_eq_some {line : List Char} {row : String × F × F}
    (h : parseLine py line = some row) :
    ∃ price qty, line.splitOn '\t' = [row.1.toList, price, qty] ∧
      py.parse (.ofList price) = some row.2.1 ∧ py.parse (.ofList qty) = some row.2.2 := by
  unfold parseLine at h
  split at h
  · cases h
  · split at h
    · rename_i symbol price qty hsplit
      obtain ⟨p, hprice, q, hqty, rfl⟩ : ∃ p, py.parse (.ofList price) = some p ∧
          ∃ q, py.parse (.ofList qty) = some q ∧ (String.ofList symbol, p, q) = row := by
        simpa [Option.bind_eq_some_iff] using h
      exact ⟨price, qty, by rw [hsplit, String.toList_ofList], hprice, hqty⟩
    · cases h

/-- The loop of `main`: the lines that are written, and the exception that ends
the task if one does. -/
def loop (env : Thresholds F) : Option String → List (F × F) → List (List Char) →
    List (List Char) × Option PyError
  | current, rows, [] =>
      match flush env current rows with
      | .error err => ([], some err)
      | .ok out => (out, none)
  | current, rows, line :: rest =>
      match parseLine py line with
      | none => loop env current rows rest
      | some (symbol, price, qty) =>
          if some symbol ≠ current then
            match flush env current rows with
            | .error err => ([], some err)
            | .ok out =>
                let (later, ended) := loop env (some symbol) [(price, qty)] rest
                (out ++ later, ended)
          else loop env current (rows ++ [(price, qty)]) rest

/-- `main` on the lines of its input. -/
def main (env : Thresholds F) (lines : List (List Char)) : List (List Char) × Option PyError :=
  loop py env none [] lines

/-- The rows that `main` parses from a text. -/
def rows (text : List Char) : List (String × F × F) :=
  (text.splitOn '\n').filterMap (parseLine py)

end TradeWatch.Reducer
