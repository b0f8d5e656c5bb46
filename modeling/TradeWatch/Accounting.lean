import TradeWatch.Watch

/-!
The operational counters. `Booked` says how the counters of two engines differ
when certain answers were heard and certain alerts went out in between; it
holds of one turn of the loop, and bookings append, so it holds of the loop,
of a call and of a whole run. Only a trade whose event time cannot be read is
lost: the call on it raises before it is counted.
-/

namespace TradeWatch

open PyFloat Transducer

section Order

variable {F : Type} [PyFloat F]

/-- `a` is at least as severe as `b`, and scores at least as high when they are
equally severe. -/
def NotBelow (a b : Alert F) : Prop :=
  b.severity.rank < a.severity.rank ∨
    (b.severity.rank = a.severity.rank ∧ le b.score.value a.score.value)

theorem Score.refl (s : Score F) : le s.value s.value := (refl_of_le s.nonneg).2

theorem not_keyLt_iff (a b : Alert F) : (!keyLt a b) = true ↔ NotBelow a b := by
  have htotal := le_total a.score.refl b.score.refl
  unfold keyLt NotBelow
  simp only [Bool.not_eq_true', Bool.or_eq_false_iff, decide_eq_false_iff_not, not_lt,
    Bool.and_eq_false_iff]
  constructor
  · rintro ⟨hrank, heq | hscore⟩
    · exact Or.inl (lt_of_le_of_ne hrank (Ne.symm heq))
    · rcases hrank.lt_or_eq with hlt | heq
      · exact Or.inl hlt
      · refine Or.inr ⟨heq, ?_⟩
        by_contra hnot
        rw [← Bool.not_eq_true, lt_iff, not_and, not_not] at hscore
        rcases htotal with hab | hba
        · exact hnot (hscore hab)
        · exact hnot hba
  · rintro (hlt | ⟨heq, hle⟩)
    · exact ⟨hlt.le, Or.inl hlt.ne'⟩
    · refine ⟨heq.le, Or.inr ?_⟩
      rw [← Bool.not_eq_true, lt_iff]
      exact fun h => h.2 hle

theorem notBelow_trans {a b c : Alert F} (hab : NotBelow a b) (hbc : NotBelow b c) :
    NotBelow a c := by
  rcases hab with hab | ⟨heab, hab⟩ <;> rcases hbc with hbc | ⟨hebc, hbc⟩
  · exact Or.inl (hbc.trans hab)
  · exact Or.inl (hebc.trans_lt hab)
  · exact Or.inl (hbc.trans_eq heab)
  · exact Or.inr ⟨hebc.trans heab, le_trans hbc hab⟩

theorem notBelow_total (a b : Alert F) : NotBelow a b ∨ NotBelow b a := by
  rcases lt_trichotomy a.severity.rank b.severity.rank with hlt | heq | hlt
  · exact Or.inr (Or.inl hlt)
  · rcases le_total a.score.refl b.score.refl with hab | hba
    · exact Or.inr (Or.inr ⟨heq, hab⟩)
    · exact Or.inl (Or.inr ⟨heq.symm, hba⟩)
  · exact Or.inl (Or.inl hlt)

/-- The returned list goes from the most severe alert to the least. -/
theorem sortAlerts_sorted (alerts : List (Alert F)) :
    (sortAlerts alerts).Pairwise NotBelow := by
  have htotal : Std.Total (fun a b : Alert F => (!keyLt a b) = true) :=
    ⟨fun a b => by simpa only [not_keyLt_iff] using notBelow_total a b⟩
  have htrans : IsTrans (Alert F) (fun a b => (!keyLt a b) = true) :=
    ⟨fun a b c => by simpa only [not_keyLt_iff] using notBelow_trans⟩
  refine (List.pairwise_insertionSort (fun a b : Alert F => (!keyLt a b) = true) alerts).imp ?_
  intro a b h
  exact (not_keyLt_iff a b).mp h

end Order

namespace DetectionEngine

section Bookings

variable {D F : Type} [PyFloat F]

/-- The answer is an exception. -/
def isError : Answer F → Bool
  | .error _ => true
  | .ok _ => false

/-- The counters after `asked` was heard and `returned` went out, against the
counters before. -/
structure Booked (names : List String) (asked : List (String × Answer F))
    (returned : List (Alert F)) (e e' : DetectionEngine D F) : Prop where
  raised : e'.alertsRaised = e.alertsRaised + returned.length
  bySeverity : Counter.total e'.alertsBySeverity =
    Counter.total e.alertsBySeverity + returned.length
  byDetector : (names.map (Counter.count e'.alertsByDetector)).sum =
    (names.map (Counter.count e.alertsByDetector)).sum + returned.length
  fired : e'.alertsRaised + e'.alertsSuppressed =
    e.alertsRaised + e.alertsSuppressed + asked.countP (fun a => (alertOf a.2).isSome)
  errors : ∀ name ∈ names, Counter.count e'.alertsByDetector (name ++ ":error") =
    Counter.count e.alertsByDetector (name ++ ":error") +
      asked.countP (fun a => a.1 = name && isError a.2)
  keys : ∀ key ∈ e'.alertsByDetector.keys,
    key ∈ e.alertsByDetector.keys ∨ key ∈ names ∨ ∃ name ∈ names, key = name ++ ":error"

/-- No detector is called like another one's error counter. -/
def NoErrorNames (names : List String) : Prop :=
  ∀ name ∈ names, ∀ other ∈ names, name ≠ other ++ ":error"

variable {names : List String} {asked asked' : List (String × Answer F)}
  {returned returned' : List (Alert F)} {e e' e'' : DetectionEngine D F}

theorem Booked.refl (names : List String) (e : DetectionEngine D F) : Booked names [] [] e e where
  raised := rfl
  bySeverity := rfl
  byDetector := rfl
  fired := rfl
  errors _ _ := rfl
  keys _ h := Or.inl h

theorem Booked.append (h : Booked names asked returned e e')
    (h' : Booked names asked' returned' e' e'') :
    Booked names (asked ++ asked') (returned ++ returned') e e'' where
  raised := by rw [h'.raised, h.raised, List.length_append, add_assoc]
  bySeverity := by rw [h'.bySeverity, h.bySeverity, List.length_append, add_assoc]
  byDetector := by rw [h'.byDetector, h.byDetector, List.length_append, add_assoc]
  fired := by rw [h'.fired, h.fired, List.countP_append, add_assoc]
  errors name hname := by
    rw [h'.errors name hname, h.errors name hname, List.countP_append, add_assoc]
  keys key hkey := by
    rcases h'.keys key hkey with hmid | hnew
    · exact h.keys key hmid
    · exact Or.inr hnew

theorem error_ne_error {name other : String} (h : name ≠ other) :
    name ++ ":error" ≠ other ++ ":error" := by
  intro heq
  exact h (String.append_left_inj _ |>.mp heq)

/-- One turn of the loop books its answer and its alert. -/
theorem Turn.booked [EventTime F] {trade : Trade F} {name : String} {answer : Answer F}
    {hit : Option (Alert F)} (h : Turn e trade name answer hit e') (hname : name ∈ names)
    (hnodup : names.Nodup) (hplain : NoErrorNames names) :
    Booked names [(name, answer)] hit.toList e e' := by
  have herrorKey : name ++ ":error" ∉ names := by
    intro hmem
    exact hplain _ hmem name hname rfl
  cases h with
  | raised err =>
      exact
        { raised := rfl
          bySeverity := rfl
          byDetector := Counter.sum_count_incr_of_notMem _ herrorKey
          fired := rfl
          errors := by
            intro other hother
            rcases eq_or_ne name other with rfl | hne
            · simp [isError]
            · rw [Counter.count_incr_ne _ (error_ne_error hne.symm)]
              simp [hne]
          keys := by
            intro key hkey
            rcases (OrderedDict.mem_keys_set _ _ _ _).mp hkey with heq | hold
            · exact Or.inr (Or.inr ⟨name, hname, heq⟩)
            · exact Or.inl hold }
  | silent =>
      exact
        { raised := rfl
          bySeverity := rfl
          byDetector := rfl
          fired := rfl
          errors := by
            intro other hother
            simp [isError]
          keys := fun _ h => Or.inl h }
  | suppressed alert hwithin =>
      exact
        { raised := rfl
          bySeverity := rfl
          byDetector := rfl
          fired := rfl
          errors := by
            intro other hother
            simp [isError]
          keys := fun _ h => Or.inl h }
  | returned alert hwithin =>
      exact
        { raised := rfl
          bySeverity := Counter.total_incr _ _
          byDetector := Counter.sum_count_incr _ hname hnodup
          fired := by
            simp only [List.countP_singleton, alertOf, Option.isSome_some, if_true]
            omega
          errors := by
            intro other hother
            have hne : other ++ ":error" ≠ name := by
              intro heq
              exact hplain name hname other hother heq.symm
            rw [Counter.count_incr_ne _ hne]
            simp [isError]
          keys := by
            intro key hkey
            rcases (OrderedDict.mem_keys_set _ _ _ _).mp hkey with heq | hold
            · exact Or.inr (Or.inl (heq ▸ hname))
            · exact Or.inl hold }

/-- The counters of the alerts after `returned` went out, key by key, against
the counters before. Error counters of the detectors `names` stand aside. -/
structure Tallied (names : List String) (returned : List (Alert F))
    (e e' : DetectionEngine D F) : Prop where
  raised : e'.alertsRaised = e.alertsRaised + returned.length
  bySeverity : ∀ key, e'.alertsBySeverity.get? key =
    (e.alertsBySeverity.tally (returned.map (·.severity.value))).get? key
  byDetector : ∀ key, (∀ name ∈ names, key ≠ name ++ ":error") →
    e'.alertsByDetector.get? key =
      (e.alertsByDetector.tally (returned.map (·.detector))).get? key

theorem Tallied.refl (names : List String) (e : DetectionEngine D F) : Tallied names [] e e where
  raised := rfl
  bySeverity _ := rfl
  byDetector _ _ := rfl

theorem Tallied.append (h : Tallied names returned e e') (h' : Tallied names returned' e' e'') :
    Tallied names (returned ++ returned') e e'' where
  raised := by rw [h'.raised, h.raised, List.length_append, add_assoc]
  bySeverity key := by
    rw [h'.bySeverity, List.map_append, Counter.tally_append]
    exact Counter.get?_tally_congr (h.bySeverity key) rfl
  byDetector key hkey := by
    rw [h'.byDetector key hkey, List.map_append, Counter.tally_append]
    exact Counter.get?_tally_congr (h.byDetector key hkey) rfl

/-- The order in which the alerts go out is nothing to the counters. -/
theorem Tallied.perm (h : Tallied names returned e e') (hperm : returned.Perm returned') :
    Tallied names returned' e e' where
  raised := by rw [h.raised, hperm.length_eq]
  bySeverity key := by
    rw [h.bySeverity]
    exact Counter.get?_tally_congr rfl ((hperm.map _).count_eq key)
  byDetector key hkey := by
    rw [h.byDetector key hkey]
    exact Counter.get?_tally_congr rfl ((hperm.map _).count_eq key)

/-- One turn of the loop tallies its alert. -/
theorem Turn.tallied [EventTime F] {trade : Trade F} {name : String} {answer : Answer F}
    {hit : Option (Alert F)} (h : Turn e trade name answer hit e') (hname : name ∈ names)
    (hbuilt : Built trade name answer) : Tallied names hit.toList e e' := by
  cases h with
  | raised err =>
      refine ⟨rfl, fun _ => rfl, fun key hkey => ?_⟩
      exact OrderedDict.get?_set_ne _ (hkey name hname) _
  | silent => exact Tallied.refl names e
  | suppressed alert hwithin => exact ⟨rfl, fun _ => rfl, fun _ _ => rfl⟩
  | returned alert hwithin =>
      obtain ⟨severity, score, reason, details, rfl⟩ := hbuilt alert rfl
      exact ⟨rfl, fun _ => rfl, fun _ _ => rfl⟩

section Call

variable [EventTime F] [Detector D F]

theorem inspectAll_tallied [LawfulDetector D F] (trade : Trade F) (window : SymbolWindow F)
    (detectors : List D) (hnames : ∀ d ∈ detectors, Detector.name d ∈ names)
    (e : DetectionEngine D F) :
    Tallied names (inspectAll trade window detectors e).1 e
      (inspectAll trade window detectors e).2.2 := by
  induction detectors generalizing e with
  | nil => exact Tallied.refl names e
  | cons d rest ih =>
      obtain ⟨hd, hrest⟩ := List.forall_mem_cons.mp hnames
      have hturn := (e.inspectOne_turn trade window d).tallied hd
        (LawfulDetector.built_inspect d trade window)
      exact hturn.append (ih hrest _)

/-- A call that returns alerts counts one trade and tallies these alerts. -/
theorem process_tallied [LawfulDetector D F] (e : DetectionEngine D F) (trade : Trade F)
    {alerts : List (Alert F)} (hok : (e.process trade).1 = .ok alerts) :
    (e.process trade).2.tradesProcessed = e.tradesProcessed + 1 ∧
      Tallied e.names alerts e (e.process trade).2 := by
  rcases hadd : ((e.windows.window trade.symbol).add trade).1 with err | ⟨⟩
  · rw [process_of_error e trade hadd] at hok
    cases hok
  · have hframe := inspectAll_frame trade (e.windowAfter trade) e.detectors (e.ingest trade)
    have hloop := inspectAll_tallied trade (e.windowAfter trade) e.detectors
      (fun d hd => List.mem_map_of_mem hd) (e.ingest trade)
    rw [process_of_ok e trade hadd] at hok ⊢
    obtain rfl := Except.ok.inj hok
    have hsorted := hloop.perm (List.perm_insertionSort (fun a b => !keyLt a b) _).symm
    exact ⟨hframe.tradesProcessed, hsorted.raised, hsorted.bySeverity, hsorted.byDetector⟩

theorem inspectAll_booked (trade : Trade F) (window : SymbolWindow F) (hnodup : names.Nodup)
    (hplain : NoErrorNames names) (detectors : List D)
    (hnames : ∀ d ∈ detectors, Detector.name d ∈ names) (e : DetectionEngine D F) :
    Booked names (answers detectors trade window) (inspectAll trade window detectors e).1 e
      (inspectAll trade window detectors e).2.2 := by
  induction detectors generalizing e with
  | nil => exact Booked.refl names e
  | cons d rest ih =>
      obtain ⟨hd, hrest⟩ := List.forall_mem_cons.mp hnames
      have hturn := (e.inspectOne_turn trade window d).booked hd hnodup hplain
      exact hturn.append (ih hrest _)

/-- One call books what it heard and what it returned. -/
theorem watch_booked (e : DetectionEngine D F) (trade : Trade F) (hnodup : e.names.Nodup)
    (hplain : NoErrorNames e.names) :
    Booked e.names (e.watch trade).1.answers (e.watch trade).1.alerts e (e.watch trade).2 := by
  rcases hadd : ((e.windows.window trade.symbol).add trade).1 with err | ⟨⟩
  · simp only [watch, Observation.alerts, process_of_error e trade hadd,
      asked_of_error e trade hadd]
    exact ⟨rfl, rfl, rfl, rfl, fun _ _ => rfl, fun _ h => Or.inl h⟩
  · have hloop := inspectAll_booked trade (e.windowAfter trade) hnodup hplain e.detectors
      (fun d hd => List.mem_map_of_mem hd) (e.ingest trade)
    have hlength : ∀ alerts : List (Alert F), (sortAlerts alerts).length = alerts.length :=
      fun alerts => List.length_insertionSort _ alerts
    simp only [watch, Observation.alerts, process_of_ok e trade hadd, asked_of_ok e trade hadd]
    exact
      { raised := by rw [hlength]; exact hloop.raised
        bySeverity := by rw [hlength]; exact hloop.bySeverity
        byDetector := by rw [hlength]; exact hloop.byDetector
        fired := hloop.fired
        errors := hloop.errors
        keys := hloop.keys }

/-- A whole run books everything it heard and everything it returned. -/
theorem run_booked [LawfulDetector D F] (e : DetectionEngine D F) (hnodup : e.names.Nodup)
    (hplain : NoErrorNames e.names) (trades : List (Trade F)) :
    Booked e.names ((trace watch e trades).flatMap (·.2.answers))
      ((trace watch e trades).flatMap (·.2.alerts)) e (final watch e trades) := by
  induction trades generalizing e with
  | nil => exact Booked.refl _ e
  | cons trade rest ih =>
      have hcall := e.watch_booked trade hnodup hplain
      have hrest := ih (e.watch trade).2 (by rwa [watch_names]) (by rwa [watch_names])
      rw [watch_names] at hrest
      exact hcall.append hrest

end Call

end Bookings

section Processed

variable {D F : Type} [PyFloat F] [EventTime F] [Detector D F]

theorem process_tradesProcessed_of_ok (e : DetectionEngine D F) (trade : Trade F)
    (hadd : ((e.windows.window trade.symbol).add trade).1 = .ok ()) :
    (e.process trade).2.tradesProcessed = e.tradesProcessed + 1 := by
  rw [process_of_ok e trade hadd]
  exact (inspectAll_frame trade (e.windowAfter trade) e.detectors (e.ingest trade)).tradesProcessed

theorem process_tradesProcessed_of_unreadable (e : DetectionEngine D F) {trade : Trade F}
    (hread : EventTime.readable trade = false) :
    (e.process trade).2.tradesProcessed = e.tradesProcessed := by
  have hadd := congrArg Prod.fst
    (SymbolWindow.add_of_unreadable (e.windows.window trade.symbol) hread)
  rw [process_of_error e trade hadd]

theorem final_tradesProcessed (e : DetectionEngine D F)
    (hmax : ∀ symbol, 0 ≤ (e.windows.window symbol).maxTrades)
    (hempty : ∀ symbol, (e.windows.window symbol).trades = []) {trades : List (Trade F)}
    (hread : ∀ t ∈ trades, EventTime.readable t = true) :
    (final watch e trades).tradesProcessed = e.tradesProcessed + trades.length := by
  induction trades using List.reverseRecOn with
  | nil => rfl
  | append_singleton before trade ih =>
      have hadd := e.final_add_ok_of_readable hmax hempty hread
      have hstep := (final watch e before).process_tradesProcessed_of_ok trade hadd
      have hbefore := ih fun t ht => hread t (List.mem_append_left _ ht)
      rw [final_append, List.length_append]
      simp only [final_cons, final_nil, watch, List.length_singleton] at hstep ⊢
      omega

end Processed

section Shipped

variable {D F : Type} [PyFloat F] [EventTime F] [Detector D F]

theorem shippedNames_plain : NoErrorNames shippedNames := by
  unfold NoErrorNames
  decide

variable {M : Type} (sklearn : SkLearn F M) (cfg : DetectionConfig F)

theorem init_names_plain : NoErrorNames (init sklearn cfg).names := by
  intro name hname other hother
  have hsub := (init_names_sublist sklearn cfg).subset
  exact shippedNames_plain name (hsub hname) other (hsub hother)

/-- Every alert of a returned list was built for the trade by one of the
detectors, and no detector appears twice. -/
theorem due_detectors_nodup [LawfulDetector D F] (e : DetectionEngine D F) (trade : Trade F)
    (hnodup : e.names.Nodup) :
    (((e.asked trade).filterMap (e.due trade)).map (·.detector)).Nodup := by
  have hkeep : ∀ a ∈ e.asked trade, (e.due trade a).map (·.detector) =
      if (e.due trade a).isSome then some a.1 else none := by
    rintro ⟨name, answer⟩ hmem
    cases hdue : e.due trade (name, answer) with
    | none => rfl
    | some alert =>
        obtain ⟨rfl, _⟩ := due_eq_some.mp hdue
        obtain ⟨severity, score, reason, details, rfl⟩ := e.built_of_mem_asked trade hmem
        rfl
  have hsub : List.Sublist (((e.asked trade).filterMap (e.due trade)).map (·.detector))
      ((e.asked trade).map Prod.fst) := by
    rw [List.map_filterMap, List.filterMap_congr hkeep]
    generalize e.asked trade = asked
    induction asked with
    | nil => simp
    | cons a rest ih =>
        rw [List.filterMap_cons, List.map_cons]
        split
        · exact ih.cons _
        · rename_i name heq
          split_ifs at heq
          obtain rfl := Option.some.inj heq
          exact ih.cons_cons _
  exact (hsub.trans (e.asked_names_sublist trade)).nodup hnodup

/-- The counters of an engine after `calls` calls that heard `asked` and returned
`returned`. -/
structure CountersAccount (names : List String) (calls : ℕ) (asked : List (String × Answer F))
    (returned : List (Alert F)) (e : DetectionEngine (ShippedDetector F M) F) : Prop where
  processed : e.tradesProcessed = calls
  raised : e.alertsRaised = returned.length
  bySeverity : e.alertsRaised = Counter.total e.alertsBySeverity
  byDetector : e.alertsRaised = (names.map (Counter.count e.alertsByDetector)).sum
  keys : ∀ key ∈ e.alertsByDetector.keys, key ∈ names ∨ ∃ name ∈ names, key = name ++ ":error"
  fired : e.alertsRaised + e.alertsSuppressed = asked.countP (fun a => (alertOf a.2).isSome)
  errors : ∀ name ∈ names, Counter.count e.alertsByDetector (name ++ ":error") =
    asked.countP (fun a => a.1 = name && isError a.2)

/-- What a call returns: the due answers, one a detector at most, most severe first, each
with a score in `[0, 1]` and with its trade's symbol and id. -/
def ReturnsAccount (e : DetectionEngine (ShippedDetector F M) F) (trade : Trade F) : Prop :=
  ∀ alerts, (e.process trade).1 = .ok alerts →
    alerts.Perm ((e.asked trade).filterMap (e.due trade)) ∧
      (alerts.map (·.detector)).Nodup ∧
      alerts.Pairwise NotBelow ∧
      ∀ alert ∈ alerts, le (ofRat 0) alert.score.value ∧ le alert.score.value (ofRat 1) ∧
        alert.symbol = trade.symbol ∧ alert.tradeId = trade.tradeId

/-- The books are right after every part of the run. -/
def AccountsAlong (start : DetectionEngine (ShippedDetector F M) F) (trades : List (Trade F)) :
    Prop :=
  ∀ before after, trades = before ++ after →
    let log := trace watch start before
    let e := final watch start before
    CountersAccount start.names before.length (log.flatMap (·.2.answers))
        (log.flatMap (·.2.alerts)) e ∧
      ∀ trade ∈ after.head?, ReturnsAccount e trade

theorem returnsAccount (e : DetectionEngine (ShippedDetector F M) F) (trade : Trade F)
    (hnodup : e.names.Nodup) : ReturnsAccount e trade := by
  intro alerts hok
  have hadd : ((e.windows.window trade.symbol).add trade).1 = .ok () := by
    rcases hadd : ((e.windows.window trade.symbol).add trade).1 with err | ⟨⟩
    · rw [process_of_error e trade hadd] at hok
      cases hok
    · rfl
  obtain rfl := Except.ok.inj ((e.process_returned trade hnodup hadd).symm.trans hok)
  have hperm := List.perm_insertionSort (fun a b => !keyLt a b)
    ((e.asked trade).filterMap (e.due trade))
  refine ⟨hperm, ?_, sortAlerts_sorted _, ?_⟩
  · exact (hperm.map _).nodup_iff.mpr (e.due_detectors_nodup trade hnodup)
  · intro alert halert
    obtain ⟨⟨name, answer⟩, hmem, hdue⟩ := List.mem_filterMap.mp (hperm.mem_iff.mp halert)
    obtain ⟨rfl, _⟩ := due_eq_some.mp hdue
    obtain ⟨severity, score, reason, details, rfl⟩ := e.built_of_mem_asked trade hmem
    exact ⟨Score.nonneg _, Score.le_one _, rfl, rfl⟩

/-- Whatever happens in a run, its counters are right as soon as it has counted every
call. -/
theorem countersAccount_of_processed {trades : List (Trade F)}
    (hprocessed : (final watch (init sklearn cfg) trades).tradesProcessed = trades.length) :
    CountersAccount (init sklearn cfg).names trades.length
      ((trace watch (init sklearn cfg) trades).flatMap (·.2.answers))
      ((trace watch (init sklearn cfg) trades).flatMap (·.2.alerts))
      (final watch (init sklearn cfg) trades) := by
  let start := init sklearn cfg
  have hbooked := start.run_booked (init_names_nodup sklearn cfg) (init_names_plain sklearn cfg)
    trades
  have hraised := hbooked.raised.trans (Nat.zero_add _)
  have hseverity := hbooked.bySeverity.trans (Nat.zero_add _)
  have hzero : (start.names.map (Counter.count start.alertsByDetector)).sum = 0 := by
    apply List.sum_eq_zero
    intro n hn
    obtain ⟨name, _, rfl⟩ := List.mem_map.mp hn
    rfl
  have hdetector := hbooked.byDetector
  rw [hzero, Nat.zero_add] at hdetector
  exact
    { processed := hprocessed
      raised := hraised
      bySeverity := hraised.trans hseverity.symm
      byDetector := hraised.trans hdetector.symm
      keys := fun key hkey => (hbooked.keys key hkey).resolve_left List.not_mem_nil
      fired := hbooked.fired.trans (Nat.zero_add _)
      errors := fun name hname => (hbooked.errors name hname).trans (Nat.zero_add _) }

/-- The books of the shipped engine are right all along a run exactly if the event time of
every trade can be read. -/
theorem counters_account_iff (hmax : 1 ≤ cfg.window.maxTrades) (trades : List (Trade F)) :
    AccountsAlong (init sklearn cfg) trades ↔
      ∀ t ∈ trades, EventTime.readable t = true := by
  let start := init sklearn cfg
  have hnonneg : ∀ symbol, 0 ≤ (start.windows.window symbol).maxTrades := by
    intro symbol
    change 0 ≤ cfg.window.maxTrades
    omega
  constructor
  · intro h t ht
    obtain ⟨before, after, rfl⟩ := List.append_of_mem ht
    by_contra hread
    rw [Bool.not_eq_true] at hread
    -- the call on a trade that cannot be read is not counted
    have hbefore := (h before (t :: after) rfl).1.processed
    have hcall := (h (before ++ [t]) after (by simp)).1.processed
    have hstep := (final watch start before).process_tradesProcessed_of_unreadable hread
    rw [final_append, List.length_append] at hcall
    simp only [final_cons, final_nil, watch, List.length_singleton] at hcall
    rw [hstep, hbefore] at hcall
    omega
  · rintro hread before after rfl
    have hbefore : ∀ t ∈ before, EventTime.readable t = true :=
      fun t ht => hread t (List.mem_append_left _ ht)
    refine ⟨countersAccount_of_processed sklearn cfg ?_, fun trade _ => ?_⟩
    · exact (start.final_tradesProcessed hnonneg (fun _ => rfl) hbefore).trans (Nat.zero_add _)
    · apply returnsAccount
      rw [show (final watch start before).names = start.names from start.final_names before]
      exact init_names_nodup sklearn cfg

theorem counters_account_iff_self_trades :
    AccountsAlong (init .missing {}) [selfTradeAt "a" 0, selfTradeAt "b" 1, selfTradeAt "c" 8] :=
  (counters_account_iff .missing {} (by decide) _).mpr (by decide +kernel)

/-- The call on a trade of the first day of the calendar raises, and is not counted. -/
theorem not_accountsAlong_first_day :
    ¬ AccountsAlong (init .missing ({} : DetectionConfig Double))
      [doubleTradeAt "a" (-62135596800)] := by
  intro h
  exact absurd (h _ [] (List.append_nil _).symm).1.processed (by decide +kernel)

end Shipped

end DetectionEngine

end TradeWatch
