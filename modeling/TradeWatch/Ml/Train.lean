import TradeWatch.Lib.Returns
import TradeWatch.Ml.Features
import TradeWatch.Sources.Simulator

/-!
Offline training: the labelled tape becomes a feature matrix, the matrix is cut in
order of time, two models are fitted to the front and judged on the back, and the
better one is kept. scikit-learn is a parameter.
-/

namespace TradeWatch.Train

open PyFloat StateExcept Transducer

/-- What `train` uses of scikit-learn: two kinds of models, and the scores of what they
answer. -/
structure Estimators (F C I : Type) where
  fitClassifier : ℤ → List (FeatureRow F) → List ℕ → Except PyError C
  /-- The second column of `predict_proba`. -/
  predictProba : C → List (FeatureRow F) → Except PyError (List F)
  fitForest : F → ℤ → List (FeatureRow F) → Except PyError I
  decisionFunction : I → List (FeatureRow F) → Except PyError (List F)
  predict : I → List (FeatureRow F) → Except PyError (List ℤ)
  /-- `confusion_matrix(y_true, y_pred, labels=[0, 1]).ravel()`. -/
  confusionMatrix : List ℕ → List ℕ → Except PyError (ℕ × ℕ × ℕ × ℕ)
  precisionScore : List ℕ → List ℕ → Except PyError F
  recallScore : List ℕ → List ℕ → Except PyError F
  f1Score : List ℕ → List ℕ → Except PyError F
  rocAucScore : List ℕ → List F → Except PyError F
  averagePrecisionScore : List ℕ → List F → Except PyError F

structure ModelMetrics (F : Type) where
  model : String
  precision : F
  /-- `recall`, which is a keyword here. -/
  recallScore : F
  f1 : F
  rocAuc : F
  prAuc : F
  tn : ℕ
  fp : ℕ
  fn : ℕ
  tp : ℕ

inductive Champion (C I : Type)
  | gradientBoosting (model : C)
  | isolationForest (model : I)

structure TrainResult (F C I : Type) where
  trades : ℕ
  positives : ℕ
  train : ℕ
  test : ℕ
  classifier : C
  forest : I
  supervised : ModelMetrics F
  unsupervised : ModelMetrics F
  champion : Champion C I

section Slices

variable {α : Type}

/-- The place in the list that a slice bound stands for. -/
def sliceBound (length : ℕ) (bound : ℤ) : ℕ :=
  if 0 ≤ bound then bound.toNat else (length + bound).toNat

/-- `items[:bound]`. -/
def sliceTo (items : List α) (bound : ℤ) : List α := items.take (sliceBound items.length bound)

/-- `items[bound:]`. -/
def sliceFrom (items : List α) (bound : ℤ) : List α := items.drop (sliceBound items.length bound)

end Slices

variable {F C I : Type} [PyFloat F]

/-- An area under a curve, for which both labels are needed. -/
def ranked (yTrue : List ℕ) (area : Except PyError F) : Except PyError F :=
  if 1 < yTrue.dedup.length then area else .ok (ofRat 0)

/-- `_evaluate`. -/
def evaluate (est : Estimators F C I) (name : String) (yTrue yPred : List ℕ) (yScore : List F) :
    Except PyError (ModelMetrics F) := do
  let (tn, fp, fn, tp) ← est.confusionMatrix yTrue yPred
  let precision ← est.precisionScore yTrue yPred
  let recallScore ← est.recallScore yTrue yPred
  let f1 ← est.f1Score yTrue yPred
  let rocAuc ← ranked yTrue (est.rocAucScore yTrue yScore)
  let prAuc ← ranked yTrue (est.averagePrecisionScore yTrue yScore)
  pure
    { model := name
      precision := precision
      recallScore := recallScore
      f1 := f1
      rocAuc := rocAuc
      prAuc := prAuc
      tn := tn
      fp := fp
      fn := fn
      tp := tp }

/-- The answers of a builder to the trades of a batch, in order. -/
def rows (np : NumPy F) (trades : List (Trade F)) : List (Except PyError (FeatureRow F)) :=
  (trace (FeatureBuilder.transformOne np) (.init 200 300) trades).map Prod.snd

/-- `FeatureBuilder().transform(trades)`. -/
def transform (np : NumPy F) (trades : List (Trade F)) : Except PyError (List (FeatureRow F)) :=
  (rows np trades).mapM id

/-- The label that the tape gives each trade: whether it belongs to an episode. -/
def labels (tape : List (LabeledTrade F)) : List ℕ :=
  tape.map (fun labeled => if labeled.2 = none then 0 else 1)

/-- `_build_dataset` on the tape of the simulator. There is nothing to stack where
there are no trades. -/
def buildDataset (np : NumPy F) (tape : List (LabeledTrade F)) :
    Except PyError (List (FeatureRow F) × List ℕ) := do
  let x ← transform np (tape.map Prod.fst)
  if x.isEmpty then .error .valueError else .ok (x, labels tape)

/-- `train` up to its result. `int` truncates a float and raises where it is not
finite. -/
def train (np : NumPy F) (est : Estimators F C I) (int : F → Except PyError ℤ)
    (tape : List (LabeledTrade F)) (anomalyRate : F) (seed : ℤ) (testFraction : F) :
    Except PyError (TrainResult F C I) := do
  let (x, y) ← buildDataset np tape
  let split ← int (mul (ofRat x.length) (sub (ofRat 1) testFraction))
  let xTrain := sliceTo x split
  let xTest := sliceFrom x split
  let yTrain := sliceTo y split
  let yTest := sliceFrom y split
  let clf ← est.fitClassifier seed xTrain yTrain
  let score ← est.predictProba clf xTest
  let predicted := score.map (fun p => if le (ofRat (1 / 2)) p then 1 else 0)
  let sup ← evaluate est "gradient_boosting" yTest predicted score
  let iso ← est.fitForest anomalyRate seed xTrain
  let decision ← est.decisionFunction iso xTest
  let outliers ← est.predict iso xTest
  let unsup ← evaluate est "isolation_forest" yTest
    (outliers.map (fun p => if p = -1 then 1 else 0)) (decision.map (mul (ofRat (-1))))
  pure
    { trades := x.length
      positives := y.sum
      train := xTrain.length
      test := xTest.length
      classifier := clf
      forest := iso
      supervised := sup
      unsupervised := unsup
      champion := if le unsup.f1 sup.f1 then .gradientBoosting clf else .isolationForest iso }

/-- The metrics of the model that was kept. -/
def TrainResult.best (r : TrainResult F C I) : ModelMetrics F :=
  match r.champion with
  | .gradientBoosting _ => r.supervised
  | .isolationForest _ => r.unsupervised

section Past

theorem rows_take (np : NumPy F) (trades : List (Trade F)) (n : ℕ) :
    rows np (trades.take n) = (rows np trades).take n := by
  have hsplit : rows np trades = rows np (trades.take n) ++
      (trace (FeatureBuilder.transformOne np)
        (final (FeatureBuilder.transformOne np) (.init 200 300) (trades.take n))
        (trades.drop n)).map Prod.snd := by
    rw [rows, rows, ← List.map_append, ← trace_append, List.take_append_drop]
  have hlength : ∀ batch : List (Trade F), (rows np batch).length = batch.length := by
    intro batch
    rw [rows, List.length_map, ← List.length_map Prod.fst, trace_inputs]
  rcases le_total n trades.length with hle | hle
  · rw [hsplit, List.take_left' (by rw [hlength, List.length_take, min_eq_left hle])]
  · rw [List.take_of_length_le hle, List.take_of_length_le (by rw [hlength]; exact hle)]

/-- A row does not depend on what comes later. -/
theorem transform_take {np : NumPy F} {trades : List (Trade F)} {x : List (FeatureRow F)}
    (h : transform np trades = .ok x) (n : ℕ) : transform np (trades.take n) = .ok (x.take n) := by
  rw [transform, mapM_id_eq_ok_iff] at h ⊢
  rw [rows_take, h, List.map_take]

theorem transform_length {np : NumPy F} {trades : List (Trade F)} {x : List (FeatureRow F)}
    (h : transform np trades = .ok x) : x.length = trades.length := by
  rw [transform, mapM_id_eq_ok_iff] at h
  rw [← List.length_map Except.ok, ← h, rows, List.length_map, ← List.length_map Prod.fst,
    trace_inputs]

theorem transformOne_fst_congr {np : NumPy F} {b b' : FeatureBuilder F} {trade : Trade F}
    (h : b.window trade.symbol = b'.window trade.symbol) :
    (FeatureBuilder.transformOne np b trade).1 = (FeatureBuilder.transformOne np b' trade).1 := by
  obtain ⟨row, hrow⟩ := FeatureBuilder.featureRow_ok np (b'.window trade.symbol).trades trade
  simp only [FeatureBuilder.transformOne, h, hrow]
  split <;> rfl

/-- A builder keeps the symbols of a mixed tape apart: it answers the trades of one
symbol as it answers them when they come alone. -/
theorem trace_of_symbol (np : NumPy F) (b : FeatureBuilder F) (trades : List (Trade F))
    (symbol : String) :
    (trace (FeatureBuilder.transformOne np) b trades).filter (fun e => e.1.symbol = symbol) =
      trace (FeatureBuilder.transformOne np) b (trades.filter (fun t => t.symbol = symbol)) := by
  let view := fun (t : Trade F) (answer : Except PyError (FeatureRow F)) =>
    if t.symbol = symbol then [(t, answer)] else []
  have hlockstep : (trace (FeatureBuilder.transformOne np) b trades).flatMap
        (fun e => view e.1 e.2) =
      (trace (FeatureBuilder.transformOne np) b
        (trades.filter (fun t => t.symbol = symbol))).flatMap (fun e => [(e.1, e.2)]) := by
    apply trace_flatMap_eq (fun b b' : FeatureBuilder F => b.window symbol = b'.window symbol)
      (fun t : Trade F => t.symbol = symbol) view
      (fun t (answer : Except PyError (FeatureRow F)) => [(t, answer)])
    · intro b b' t hsame hvisible
      obtain rfl := of_decide_eq_true hvisible
      refine ⟨?_, ?_⟩
      · simp only [view, if_true, transformOne_fst_congr hsame]
      · rw [FeatureBuilder.transformOne_window, FeatureBuilder.transformOne_window, if_pos rfl,
          if_pos rfl, hsame]
    · intro b b' t hsame hhidden
      have hother := of_decide_eq_false hhidden
      refine ⟨if_neg hother, ?_⟩
      rw [FeatureBuilder.transformOne_window, if_neg (Ne.symm hother)]
      exact hsame
    · rfl
  have hfilter : ∀ entries : List (Trade F × Except PyError (FeatureRow F)),
      entries.flatMap (fun e => view e.1 e.2) = entries.filter (fun e => e.1.symbol = symbol) := by
    intro entries
    induction entries with
    | nil => rfl
    | cons e rest ih =>
        by_cases hsymbol : e.1.symbol = symbol
        · simp [view, hsymbol, ← ih]
        · simp [view, hsymbol, ← ih]
  rw [← hfilter, hlockstep]
  simp

end Past

section Scores

theorem labels_le (tape : List (LabeledTrade F)) : ∀ y ∈ labels tape, y ≤ 1 := by
  intro y hy
  obtain ⟨labeled, _, rfl⟩ := List.mem_map.mp hy
  split_ifs <;> omega

theorem labels_count (tape : List (LabeledTrade F)) :
    (labels tape).sum = tape.countP (fun labeled => labeled.2 ≠ none) := by
  induction tape with
  | nil => rfl
  | cons labeled rest ih =>
      rw [labels, List.map_cons, List.sum_cons, List.countP_cons, ← ih]
      by_cases hnone : labeled.2 = none
      · simp [hnone, labels]
      · simp [hnone, labels, Nat.add_comm]

/-- How many of the samples with one label are given another. -/
def confusion (yTrue yPred : List ℕ) (truth predicted : ℕ) : ℕ :=
  (yTrue.zip yPred).countP (fun pair => pair = (truth, predicted))

/-- What scikit-learn documents of the scores: the matrix counts the samples by their
label and by what they are taken for, and is refused where the two lists differ in
length; the other scores are best at one and worst at zero. -/
structure Estimators.Documented (est : Estimators F C I) : Prop where
  confusionMatrix : ∀ yTrue yPred tn fp fn tp,
    est.confusionMatrix yTrue yPred = .ok (tn, fp, fn, tp) →
      yTrue.length = yPred.length ∧ tn = confusion yTrue yPred 0 0 ∧
        fp = confusion yTrue yPred 0 1 ∧ fn = confusion yTrue yPred 1 0 ∧
        tp = confusion yTrue yPred 1 1
  precisionScore : ∀ yTrue yPred score, est.precisionScore yTrue yPred = .ok score →
    le (ofRat 0) score ∧ le score (ofRat 1)
  recallScore : ∀ yTrue yPred score, est.recallScore yTrue yPred = .ok score →
    le (ofRat 0) score ∧ le score (ofRat 1)
  f1Score : ∀ yTrue yPred score, est.f1Score yTrue yPred = .ok score →
    le (ofRat 0) score ∧ le score (ofRat 1)

/-- The four counts of a matrix of zeroes and ones are about every sample once; its
second row is about the samples that are labelled one, its second column about those
that are taken for one. -/
theorem confusion_total {yTrue yPred : List ℕ} (hlength : yTrue.length = yPred.length)
    (htrue : ∀ y ∈ yTrue, y ≤ 1) (hpred : ∀ y ∈ yPred, y ≤ 1) :
    confusion yTrue yPred 0 0 + confusion yTrue yPred 0 1 + confusion yTrue yPred 1 0 +
        confusion yTrue yPred 1 1 = yTrue.length ∧
      confusion yTrue yPred 1 0 + confusion yTrue yPred 1 1 = yTrue.sum ∧
      confusion yTrue yPred 0 1 + confusion yTrue yPred 1 1 = yPred.sum := by
  induction yTrue generalizing yPred with
  | nil =>
      rw [List.length_nil, eq_comm, List.length_eq_zero_iff] at hlength
      subst hlength
      exact ⟨rfl, rfl, rfl⟩
  | cons y rest ih =>
      cases yPred with
      | nil => cases hlength
      | cons p guesses =>
          obtain ⟨hy, hrest⟩ := List.forall_mem_cons.mp htrue
          obtain ⟨hp, hguesses⟩ := List.forall_mem_cons.mp hpred
          obtain ⟨htotal, hrow, hcolumn⟩ := ih (Nat.succ.inj hlength) hrest hguesses
          simp only [confusion, List.zip_cons_cons, List.countP_cons, List.length_cons,
            List.sum_cons] at htotal hrow hcolumn ⊢
          interval_cases y <;> interval_cases p <;> simp <;> omega

/-- What can be said of a model that takes the samples with the labels `yTrue` for
`yPred`. -/
structure ModelMetrics.Accounts (m : ModelMetrics F) (yTrue yPred : List ℕ) : Prop where
  total : m.tn + m.fp + m.fn + m.tp = yTrue.length
  positives : m.fn + m.tp = yTrue.sum
  flagged : m.fp + m.tp = yPred.sum
  precision : le (ofRat 0) m.precision ∧ le m.precision (ofRat 1)
  recallScore : le (ofRat 0) m.recallScore ∧ le m.recallScore (ofRat 1)
  f1 : le (ofRat 0) m.f1 ∧ le m.f1 (ofRat 1)

theorem evaluate_accounts {est : Estimators F C I} (hest : est.Documented) {name : String}
    {yTrue yPred : List ℕ} {yScore : List F} {m : ModelMetrics F} (htrue : ∀ y ∈ yTrue, y ≤ 1)
    (hpred : ∀ y ∈ yPred, y ≤ 1) (h : evaluate est name yTrue yPred yScore = .ok m) :
    m.Accounts yTrue yPred := by
  obtain ⟨⟨tn, fp, fn, tp⟩, hmatrix, h⟩ := exists_of_bind_eq_ok h
  obtain ⟨precision, hprecision, h⟩ := exists_of_bind_eq_ok h
  obtain ⟨recallScore, hrecall, h⟩ := exists_of_bind_eq_ok h
  obtain ⟨f1, hf1, h⟩ := exists_of_bind_eq_ok h
  obtain ⟨rocAuc, _, h⟩ := exists_of_bind_eq_ok h
  obtain ⟨prAuc, _, h⟩ := exists_of_bind_eq_ok h
  cases h
  obtain ⟨hsame, rfl, rfl, rfl, rfl⟩ := hest.confusionMatrix _ _ _ _ _ _ hmatrix
  obtain ⟨htotal, hrow, hcolumn⟩ := confusion_total hsame htrue hpred
  exact
    { total := htotal
      positives := hrow
      flagged := hcolumn
      precision := hest.precisionScore _ _ _ hprecision
      recallScore := hest.recallScore _ _ _ hrecall
      f1 := hest.f1Score _ _ _ hf1 }

end Scores

section Runs

variable {np : NumPy F} {est : Estimators F C I} {int : F → Except PyError ℤ}
  {tape : List (LabeledTrade F)} {anomalyRate testFraction : F} {seed : ℤ}
  {r : TrainResult F C I}

theorem buildDataset_ok {x : List (FeatureRow F)} {y : List ℕ}
    (h : buildDataset np tape = .ok (x, y)) :
    transform np (tape.map Prod.fst) = .ok x ∧ y = labels tape ∧ x.length = tape.length := by
  obtain ⟨rows, hrows, h⟩ := exists_of_bind_eq_ok h
  split_ifs at h
  cases h
  refine ⟨hrows, rfl, ?_⟩
  rw [transform_length hrows, List.length_map]

/-- What a training run that returns has done. The labels and the rows are cut at
the same trade. -/
theorem train_ok (h : train np est int tape anomalyRate seed testFraction = .ok r) :
    ∃ (x : List (FeatureRow F)) (n : ℕ) (score : List F) (outliers : List ℤ) (decision : List F),
      transform np (tape.map Prod.fst) = .ok x ∧
      x.length = tape.length ∧
      est.fitClassifier seed (x.take n) (labels (tape.take n)) = .ok r.classifier ∧
      est.fitForest anomalyRate seed (x.take n) = .ok r.forest ∧
      est.predictProba r.classifier (x.drop n) = .ok score ∧
      est.predict r.forest (x.drop n) = .ok outliers ∧
      evaluate est "gradient_boosting" (labels (tape.drop n))
        (score.map (fun p => if le (ofRat (1 / 2)) p then 1 else 0)) score = .ok r.supervised ∧
      evaluate est "isolation_forest" (labels (tape.drop n))
        (outliers.map (fun p : ℤ => if p = -1 then 1 else 0)) decision = .ok r.unsupervised ∧
      r.trades = tape.length ∧ r.positives = (labels tape).sum ∧
      r.train = (tape.take n).length ∧ r.test = (tape.drop n).length ∧
      r.champion = (if le r.unsupervised.f1 r.supervised.f1 then .gradientBoosting r.classifier
        else .isolationForest r.forest) := by
  obtain ⟨⟨x, y⟩, hdata, h⟩ := exists_of_bind_eq_ok h
  obtain ⟨hx, rfl, hlength⟩ := buildDataset_ok hdata
  obtain ⟨split, _, h⟩ := exists_of_bind_eq_ok h
  obtain ⟨clf, hclf, h⟩ := exists_of_bind_eq_ok h
  obtain ⟨score, hscore, h⟩ := exists_of_bind_eq_ok h
  obtain ⟨sup, hsup, h⟩ := exists_of_bind_eq_ok h
  obtain ⟨iso, hiso, h⟩ := exists_of_bind_eq_ok h
  obtain ⟨decision, _, h⟩ := exists_of_bind_eq_ok h
  obtain ⟨outliers, houtliers, h⟩ := exists_of_bind_eq_ok h
  obtain ⟨unsup, hunsup, h⟩ := exists_of_bind_eq_ok h
  cases h
  have hcut : (labels tape).length = x.length := by
    rw [labels, List.length_map, hlength]
  rw [sliceFrom, hcut, labels, ← List.map_drop] at hsup hunsup
  rw [sliceTo, sliceTo, hcut, labels, ← List.map_take] at hclf
  refine ⟨x, sliceBound x.length split, score, outliers, decision.map (mul (ofRat (-1))), hx,
    hlength, hclf, hiso, hscore, houtliers, hsup, hunsup, hlength, rfl, ?_, ?_, rfl⟩
  · simp only [sliceTo, List.length_take, hlength]
  · simp only [sliceFrom, List.length_drop, hlength]

/-- Training does not look ahead: whatever the tape has after the split, both models
are fitted to what a builder makes of the trades before it, and to their labels. -/
theorem fitted_from_the_past (h : train np est int tape anomalyRate seed testFraction = .ok r) :
    ∃ x, transform np ((tape.take r.train).map Prod.fst) = .ok x ∧
      est.fitClassifier seed x (labels (tape.take r.train)) = .ok r.classifier ∧
      est.fitForest anomalyRate seed x = .ok r.forest := by
  obtain ⟨x, n, _, _, _, hx, hlength, hclf, hiso, _, _, _, _, _, _, htrain, _, _⟩ := train_ok h
  have hcut : tape.take r.train = tape.take n := by
    rw [htrain, List.length_take]
    rcases le_total n tape.length with hle | hle
    · rw [min_eq_left hle]
    · rw [min_eq_right hle, List.take_length, List.take_of_length_le hle]
  refine ⟨x.take n, ?_, ?_, hiso⟩
  · rw [hcut, List.map_take]
    exact transform_take hx n
  · rw [hcut]
    exact hclf

/-- The share of the hits among hits and misses, zero where there are none. -/
def share (hits misses : ℕ) : ℚ := hits / (hits + misses)

theorem share_bounds {hits misses : ℕ} {score : ℚ}
    (h : (.ok (share hits misses) : Except PyError ℚ) = .ok score) :
    le (ofRat 0) score ∧ le score (ofRat 1) := by
  cases h
  have hpart : (hits : ℚ) ≤ hits + misses := le_add_of_nonneg_right (Nat.cast_nonneg _)
  have hnonneg : (0 : ℚ) ≤ hits + misses := by positivity
  exact ⟨ofRat_le (div_nonneg (Nat.cast_nonneg _) hnonneg),
    ofRat_le (div_le_one_of_le₀ hpart hnonneg)⟩

/-- Models that call the cheap trades anomalous, whatever they are fitted to. -/
def priced : Estimators ℚ ℕ ℕ where
  fitClassifier _ x _ := .ok x.length
  predictProba _ x := .ok (x.map (fun row => if row.notionalLog < 500 then 1 else 0))
  fitForest _ _ x := .ok x.length
  decisionFunction _ x := .ok (x.map (·.notionalLog))
  predict _ x := .ok (x.map (fun row => if row.notionalLog < 500 then -1 else 1))
  confusionMatrix yTrue yPred :=
    if yTrue.length = yPred.length then
      .ok (confusion yTrue yPred 0 0, confusion yTrue yPred 0 1, confusion yTrue yPred 1 0,
        confusion yTrue yPred 1 1)
    else .error .valueError
  precisionScore yTrue yPred :=
    .ok (share (confusion yTrue yPred 1 1) (confusion yTrue yPred 0 1))
  recallScore yTrue yPred := .ok (share (confusion yTrue yPred 1 1) (confusion yTrue yPred 1 0))
  f1Score yTrue yPred :=
    .ok (share (2 * confusion yTrue yPred 1 1)
      (confusion yTrue yPred 0 1 + confusion yTrue yPred 1 0))
  rocAucScore _ _ := .ok 1
  averagePrecisionScore _ _ := .ok 1

/-- Statistics of a list that has at most one number. -/
def singly : NumPy ℚ where
  mean xs := xs.sum
  std _ := 0
  median xs := xs.sum
  log1p x := x

def twoTrades : List (LabeledTrade ℚ) :=
  [(selfTradeAt "T1" 0, none), (selfTradeAt "T2" 60, some "wash_trade")]

/-- Training on `twoTrades`, with the split after the first. -/
def trainTwo : Except PyError (TrainResult ℚ ℕ ℕ) :=
  train singly priced (fun x => .ok ⌊x⌋) twoTrades (1 / 50) 7 (3 / 10)

theorem trainTwo_train : trainTwo.map (·.train) = .ok 1 := by
  decide +kernel

theorem trainTwo_ok : ∃ r, trainTwo = .ok r ∧ r.train = 1 := by
  have htrain := trainTwo_train
  cases hrun : trainTwo with
  | error err =>
      rw [hrun] at htrain
      cases htrain
  | ok r =>
      rw [hrun] at htrain
      exact ⟨r, rfl, Except.ok.inj htrain⟩

theorem fitted_from_one_trade : ∃ r : TrainResult ℚ ℕ ℕ, r.train = 1 ∧
    ∃ x, transform singly ((twoTrades.take r.train).map Prod.fst) = .ok x ∧
      priced.fitClassifier 7 x (labels (twoTrades.take r.train)) = .ok r.classifier ∧
      priced.fitForest (1 / 50) 7 x = .ok r.forest := by
  obtain ⟨r, hr, htrain⟩ := trainTwo_ok
  exact ⟨r, htrain, fitted_from_the_past hr⟩

theorem documented_priced : priced.Documented where
  confusionMatrix yTrue yPred tn fp fn tp h := by
    simp only [priced] at h
    split_ifs at h with hsame
    cases h
    exact ⟨hsame, rfl, rfl, rfl, rfl⟩
  precisionScore _ _ _ h := share_bounds h
  recallScore _ _ _ h := share_bounds h
  f1Score _ _ _ h := share_bounds h

/-- Every trade of the tape is in one half of the split, both models are judged on
all of the second half, by what they answer on its features and against the labels that
the tape gives it, and no model beats the one that is kept. -/
theorem train_accounts (hest : est.Documented)
    (h : train np est int tape anomalyRate seed testFraction = .ok r) :
    (r.trades = tape.length ∧ r.train + r.test = tape.length) ∧
      r.positives = tape.countP (fun labeled => labeled.2 ≠ none) ∧
      (∃ x score outliers, transform np (tape.map Prod.fst) = .ok x ∧
        est.predictProba r.classifier (x.drop r.train) = .ok score ∧
        est.predict r.forest (x.drop r.train) = .ok outliers ∧
        r.supervised.Accounts (labels (tape.drop r.train))
          (score.map (fun p => if le (ofRat (1 / 2)) p then 1 else 0)) ∧
        r.unsupervised.Accounts (labels (tape.drop r.train))
          (outliers.map (fun p : ℤ => if p = -1 then 1 else 0))) ∧
      ∀ m ∈ [r.supervised, r.unsupervised], le m.f1 r.best.f1 := by
  obtain ⟨x, n, score, outliers, decision, hx, hlength, _, _, hscore, houtliers, hsup, hunsup,
    htrades, hpositives, htrain, htest, hchampion⟩ := train_ok h
  have hcut : tape.drop r.train = tape.drop n ∧ x.drop r.train = x.drop n := by
    rw [htrain, List.length_take]
    rcases le_total n tape.length with hle | hle
    · rw [min_eq_left hle]
      exact ⟨rfl, rfl⟩
    · rw [min_eq_right hle, ← hlength, List.drop_length, hlength, List.drop_length,
        List.drop_of_length_le hle, List.drop_of_length_le (hlength ▸ hle)]
      exact ⟨rfl, rfl⟩
  have hbits : ∀ {α : Type} (p : α → Bool) (xs : List α),
      ∀ y ∈ xs.map (fun a => if p a then 1 else 0), y ≤ 1 := by
    intro α p xs y hy
    obtain ⟨a, _, rfl⟩ := List.mem_map.mp hy
    split_ifs <;> omega
  have hsupervised := evaluate_accounts hest (labels_le _) (hbits _ score) hsup
  have hunsupervised := evaluate_accounts hest (labels_le _)
    (by simpa using hbits (fun p : ℤ => p = -1) outliers) hunsup
  have hbest : le r.supervised.f1 r.best.f1 ∧ le r.unsupervised.f1 r.best.f1 := by
    unfold TrainResult.best
    rw [hchampion]
    have hself := refl_of_le hsupervised.f1.1
    have hself' := refl_of_le hunsupervised.f1.1
    by_cases hle : le r.unsupervised.f1 r.supervised.f1
    · rw [if_pos hle]
      exact ⟨hself.2, hle⟩
    · rw [if_neg hle]
      exact ⟨(le_total hself.2 hself'.2).resolve_right hle, hself'.2⟩
  refine ⟨⟨htrades, ?_⟩, ?_, ?_, ?_⟩
  · rw [htrain, htest, ← List.length_append, List.take_append_drop]
  · rw [hpositives, labels_count]
  · rw [hcut.1]
    exact ⟨x, score, outliers, hx, hcut.2 ▸ hscore, hcut.2 ▸ houtliers, hsupervised,
      hunsupervised⟩
  · intro m hm
    rcases List.mem_pair.mp hm with rfl | rfl
    · exact hbest.1
    · exact hbest.2

/-- The second trade of two is labelled, and both models are judged on it. -/
theorem train_accounts_two : ∃ r, trainTwo = .ok r ∧
    (r.trades = 2 ∧ r.train + r.test = 2) ∧ r.positives = 1 ∧
      r.supervised.fn + r.supervised.tp = 1 ∧
      (∀ m ∈ [r.supervised, r.unsupervised], le m.f1 r.best.f1) := by
  obtain ⟨r, hr, htrain⟩ := trainTwo_ok
  obtain ⟨hrows, hpositives, ⟨_, _, _, _, _, _, hsupervised, _⟩, hbest⟩ :=
    train_accounts documented_priced hr
  refine ⟨r, hr, hrows, hpositives, ?_, hbest⟩
  rw [hsupervised.positives, htrain]
  rfl

end Runs

end TradeWatch.Train
