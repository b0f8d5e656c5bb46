import TradeWatch.Api.App
import TradeWatch.Lib.OrderedDict
import TradeWatch.Lib.PyText
import TradeWatch.Lib.Returns
import TradeWatch.Lib.Split
import TradeWatch.Replay

/-!
The platform page: which services to probe, what comes of probing them, and what
the heartbeat of the batch runner says at a given time. The list of services is
text of an operator; what it may contain is exactly what can be written in it.
-/

namespace TradeWatch.Platform

open PyFloat

structure Service where
  name : String
  host : String
  port : ℤ
  kind : String
  url : Option String
  deriving DecidableEq, Repr

/-- `_DEFAULT_SERVICES`. -/
def defaultServices : List Service :=
  [⟨"Kafka broker", "kafka", 9092, "streaming", none⟩,
    ⟨"HDFS NameNode", "namenode", 9870, "data-lake", some "http://localhost:9870"⟩,
    ⟨"Spark master", "spark-master", 8080, "compute", some "http://localhost:8080"⟩,
    ⟨"HiveServer2", "hive", 10000, "warehouse", some "http://localhost:10002"⟩,
    ⟨"Airflow", "airflow-webserver", 8080, "orchestration", some "http://localhost:8081"⟩]

section Services

-- `int(text)`: `none` where it raises a `ValueError`.
variable (int : List Char → Option ℤ)

/-- One item of the list. With fewer than three parts it is passed over. -/
def parseItem (item : List Char) : Except PyError (Option Service) :=
  match (item.splitOn '|').map strip with
  | name :: host :: port :: rest =>
      match int port with
      | none => .error .valueError
      | some port =>
          .ok (some
            { name := .ofList name
              host := .ofList host
              port := port
              kind := (rest.head?.map String.ofList).getD "service"
              url := none })
  | _ => .ok none

/-- The loop over the items. -/
def parseItems : List (List Char) → Except PyError (List Service)
  | [] => .ok []
  | item :: rest => do
      let service ← parseItem int item
      let services ← parseItems rest
      pure (service.toList ++ services)

/-- `_parse_services`. -/
def parseServices (raw : Option String) : Except PyError (List Service) :=
  if !truthy raw then .ok defaultServices
  else do
    let out ← parseItems int ((raw.getD "").toList.splitOn ',')
    pure (if out = [] then defaultServices else out)

/-- A part of an item as it can be written: no white space around it, and neither
separator in it. -/
structure Part (text : List Char) : Prop where
  stripped : strip text = text
  no_comma : ',' ∉ text
  no_bar : '|' ∉ text

theorem part_service : Part "service".toList := ⟨by decide, by decide, by decide⟩

/-- A service that an item can describe. -/
structure Describable (service : Service) : Prop where
  name : Part service.name.toList
  host : Part service.host.toList
  kind : Part service.kind.toList
  port : ∃ text, Part text ∧ int text = some service.port
  url : service.url = none

theorem strip_strip (chars : List Char) : strip (strip chars) = strip chars :=
  strip_eq_self (fun _ h => head?_strip h) (fun _ h => getLast?_strip h)

/-- The parts of an item of the list. -/
theorem part_of_mem {raw item part : List Char} (hitem : item ∈ raw.splitOn ',')
    (hpart : part ∈ item.splitOn '|') : Part (strip part) := by
  have hchars := Split.mem_piece hpart
  refine ⟨strip_strip part, ?_, ?_⟩
  · intro hcomma
    exact (Split.mem_piece hitem _ (hchars _ (mem_of_mem_strip hcomma)).2).1 rfl
  · intro hbar
    exact (hchars _ (mem_of_mem_strip hbar)).1 rfl

theorem describable_parseItem {raw item : List Char} {service : Service}
    (hitem : item ∈ raw.splitOn ',') (h : parseItem int item = .ok (some service)) :
    Describable int service := by
  unfold parseItem at h
  split at h
  · rename_i name host port rest hparts
    have hpart : ∀ part ∈ name :: host :: port :: rest, Part part := by
      intro part hpart
      rw [← hparts] at hpart
      obtain ⟨source, hsource, rfl⟩ := List.mem_map.mp hpart
      exact part_of_mem hitem hsource
    rw [List.forall_mem_cons, List.forall_mem_cons, List.forall_mem_cons] at hpart
    obtain ⟨hname, hhost, hport, hrest⟩ := hpart
    split at h
    · cases h
    · rename_i n hn
      cases h
      refine ⟨by simpa using hname, by simpa using hhost, ?_, ⟨port, hport, hn⟩, rfl⟩
      cases rest with
      | nil => exact part_service
      | cons kind rest => simpa using hrest kind List.mem_cons_self
  · cases h

theorem describable_parseItems {raw : List Char} {items : List (List Char)}
    (hitems : ∀ item ∈ items, item ∈ raw.splitOn ',') {services : List Service}
    (h : parseItems int items = .ok services) : ∀ service ∈ services, Describable int service := by
  induction items generalizing services with
  | nil =>
      cases h
      simp
  | cons item rest ih =>
      obtain ⟨hitem, hrest⟩ := List.forall_mem_cons.mp hitems
      rw [parseItems] at h
      rcases hone : parseItem int item with err | service
      · rw [hone] at h
        cases h
      · rcases hmore : parseItems int rest with err | later
        · rw [hone, hmore] at h
          cases h
        · rw [hone, hmore] at h
          cases h
          intro found hfound
          rcases List.mem_append.mp hfound with hfirst | hlater
          · obtain rfl := Option.mem_toList.mp hfirst
            exact describable_parseItem int hitem hone
          · exact ih hrest hmore found hlater

/-- The item that describes a service, given the text of its port. -/
def itemText (service : Service) (port : List Char) : List Char :=
  ['|'].intercalate [service.name.toList, service.host.toList, port, service.kind.toList]

theorem parseItem_itemText {service : Service} (h : Describable int service) {port : List Char}
    (hpart : Part port) (hport : int port = some service.port) :
    parseItem int (itemText service port) = .ok (some service) := by
  have hbars : ∀ part ∈ [service.name.toList, service.host.toList, port, service.kind.toList],
      '|' ∉ part := by
    simp [h.name.no_bar, h.host.no_bar, hpart.no_bar, h.kind.no_bar]
  have hparts : ((itemText service port).splitOn '|').map strip =
      [service.name.toList, service.host.toList, port, service.kind.toList] := by
    rw [itemText, List.splitOn_intercalate _ hbars (by simp)]
    simp [h.name.stripped, h.host.stripped, hpart.stripped, h.kind.stripped]
  obtain ⟨name, host, number, kind, url⟩ := service
  obtain rfl : url = none := h.url
  simp [parseItem, hparts, hport]

theorem comma_notMem_itemText {service : Service} (h : Describable int service)
    {port : List Char} (hpart : Part port) : ',' ∉ itemText service port := by
  simp [itemText, List.intercalate, List.intersperse, h.name.no_comma, h.host.no_comma,
    hpart.no_comma, h.kind.no_comma]

/-- Items that describe services, one for each. -/
theorem exists_items {services : List Service} (h : ∀ service ∈ services, Describable int service) :
    ∃ items : List (List Char), items.length = services.length ∧
      (∀ item ∈ items, ',' ∉ item ∧ '|' ∈ item) ∧ parseItems int items = .ok services := by
  induction services with
  | nil => exact ⟨[], rfl, by simp, rfl⟩
  | cons service rest ih =>
      obtain ⟨hservice, hrest⟩ := List.forall_mem_cons.mp h
      obtain ⟨items, hlength, hitems, hparse⟩ := ih hrest
      obtain ⟨port, hpart, hport⟩ := hservice.port
      refine ⟨itemText service port :: items, by simp [hlength], ?_, ?_⟩
      · refine List.forall_mem_cons.mpr ⟨⟨comma_notMem_itemText int hservice hpart, ?_⟩, hitems⟩
        simp [itemText, List.intercalate, List.intersperse]
      · rw [parseItems, parseItem_itemText int hservice hpart hport, hparse]
        rfl

/-- A list that names no service gives the default board. -/
theorem accepted_parseServices {raw : Option String} {services : List Service}
    (h : parseServices int raw = .ok services) :
    services = defaultServices ∨ services ≠ [] ∧ ∀ service ∈ services, Describable int service := by
  unfold parseServices at h
  split at h
  · left
    cases h
    rfl
  · obtain ⟨out, hout, h⟩ := StateExcept.exists_of_bind_eq_ok h
    by_cases hempty : out = []
    · left
      cases h
      rw [if_pos hempty]
    · right
      cases h
      rw [if_neg hempty]
      exact ⟨hempty, describable_parseItems int (fun item hitem => hitem) hout⟩

/-- What an operator can configure: the default board, or any services that can
be written down, in the order in which they are written. The board is never
empty. -/
theorem services_accepted_iff (services : List Service) :
    (∃ raw, parseServices int raw = .ok services) ↔
      services = defaultServices ∨
        services ≠ [] ∧ ∀ service ∈ services, Describable int service := by
  constructor
  · rintro ⟨raw, h⟩
    exact accepted_parseServices int h
  · rintro (rfl | ⟨hne, hservices⟩)
    · exact ⟨none, rfl⟩
    · obtain ⟨items, hlength, hitems, hparse⟩ := exists_items int hservices
      have hitemsne : items ≠ [] := by
        rintro rfl
        exact hne (List.length_eq_zero_iff.mp hlength.symm)
      have hsplit : ([','].intercalate items).splitOn ',' = items :=
        List.splitOn_intercalate _ (fun item hitem => (hitems item hitem).1) hitemsne
      have htext : [','].intercalate items ≠ [] := by
        intro hnil
        rw [hnil, List.splitOn_nil] at hsplit
        have hbar := (hitems [] (hsplit ▸ List.mem_cons_self)).2
        cases hbar
      have hraw : truthy (some (String.ofList ([','].intercalate items))) = true := by
        cases hchars : [','].intercalate items with
        | nil => exact absurd hchars htext
        | cons c rest => simp [truthy]
      refine ⟨some (.ofList ([','].intercalate items)), ?_⟩
      rw [parseServices, hraw, Option.getD_some, String.toList_ofList, hsplit, hparse]
      simp only [Bool.not_true, Bool.false_eq_true, if_false]
      change Except.ok (if services = [] then defaultServices else services) = _
      rw [if_neg hne]

end Services

section Board

/-- What comes of opening a connection: only an `OSError` counts as down. -/
inductive Connection
  | established
  | refused
  | raised (err : PyError)
  deriving DecidableEq, Repr

structure Row (F : Type) where
  name : String
  kind : String
  target : String
  status : String
  latencyMs : F
  url : Option String
  deriving DecidableEq, Repr

structure Summary where
  total : ℕ
  up : ℕ
  down : ℕ
  deriving DecidableEq, Repr

variable {F : Type} [PyFloat F]

/-- `_probe_tcp`, with the time that the attempt took. -/
def probeTcp (connect : String → ℤ → Connection × F) (host : String) (port : ℤ) :
    Except PyError (String × F) :=
  match connect host port with
  | (.established, latency) => .ok ("up", latency)
  | (.refused, latency) => .ok ("down", latency)
  | (.raised err, _) => .error err

/-- `_check`. -/
def check (connect : String → ℤ → Connection × F) (service : Service) : Except PyError (Row F) := do
  let (status, latency) ← probeTcp connect service.host service.port
  pure
    { name := service.name
      kind := service.kind
      target := service.host ++ ":" ++ toString service.port
      status := status
      latencyMs := round latency 1
      url := service.url }

/-- The services and the summary of `snapshot`. The checks run side by side; the
first that raises ends the request. -/
def snapshot (connect : String → ℤ → Connection × F) (services : List Service) :
    Except PyError (List (Row F) × Summary) := do
  let rows ← services.mapM (check connect)
  let up := (rows.filter (fun row => row.status = "up")).length
  pure (rows, { total := rows.length, up := up, down := rows.length - up })

/-- The same in `api_platform`, which puts itself first. -/
def apiPlatform (connect : String → ℤ → Connection × F) (services : List Service) (port : ℤ) :
    Except PyError (List (Row F) × Summary) := do
  let (rows, summary) ← snapshot connect services
  let api : Row F :=
    { name := "TradeWatch API"
      kind := "speed"
      target := "localhost:" ++ toString port
      status := "up"
      latencyMs := ofRat 0
      url := some "/" }
  pure (api :: rows, { summary with total := summary.total + 1, up := summary.up + 1 })

theorem check_eq_ok {connect : String → ℤ → Connection × F} {service : Service} {row : Row F}
    (h : check connect service = .ok row) :
    row.name = service.name ∧ row.target = service.host ++ ":" ++ toString service.port ∧
      (row.status = "up" ∧ (connect service.host service.port).1 = .established ∨
        row.status = "down" ∧ (connect service.host service.port).1 = .refused) := by
  unfold check probeTcp at h
  rcases hconnect : connect service.host service.port with ⟨connection, latency⟩
  rw [hconnect] at h
  cases connection with
  | established =>
      cases h
      exact ⟨rfl, rfl, Or.inl ⟨rfl, rfl⟩⟩
  | refused =>
      cases h
      exact ⟨rfl, rfl, Or.inr ⟨rfl, rfl⟩⟩
  | raised err => cases h

theorem checks_eq_ok {connect : String → ℤ → Connection × F} {services : List Service}
    {rows : List (Row F)} (h : services.mapM (check connect) = .ok rows) :
    List.Forall₂ (fun service row => check connect service = .ok row) services rows := by
  induction services generalizing rows with
  | nil =>
      cases h
      exact .nil
  | cons service rest ih =>
      rw [List.mapM_cons] at h
      obtain ⟨row, hrow, h⟩ := StateExcept.exists_of_bind_eq_ok h
      obtain ⟨later, hlater, h⟩ := StateExcept.exists_of_bind_eq_ok h
      cases h
      exact .cons hrow (ih hlater)

theorem names_of_checks {connect : String → ℤ → Connection × F} {services : List Service}
    {rows : List (Row F)}
    (h : List.Forall₂ (fun service row => check connect service = .ok row) services rows) :
    rows.map Row.name = services.map Service.name := by
  induction h with
  | nil => rfl
  | cons hrow _ ih => rw [List.map_cons, List.map_cons, ih, (check_eq_ok hrow).1]

theorem length_up_add_down {connect : String → ℤ → Connection × F} {services : List Service}
    {rows : List (Row F)}
    (h : List.Forall₂ (fun service row => check connect service = .ok row) services rows) :
    (rows.filter (fun row => row.status = "up")).length +
      (rows.filter (fun row => row.status = "down")).length = rows.length := by
  induction h with
  | nil => rfl
  | cons hrow _ ih =>
      rcases (check_eq_ok hrow).2.2 with ⟨hstatus, _⟩ | ⟨hstatus, _⟩ <;>
        simp [hstatus] <;> omega

/-- Whatever the operator configures and whatever the probes meet, a board that
is shown has a row for the program itself and one for each service, in their
order; a row is up exactly when the connection came about, and the summary counts
the rows. -/
theorem board_counts_rows (int : List Char → Option ℤ) {raw : Option String}
    {services : List Service} (hservices : parseServices int raw = .ok services)
    {connect : String → ℤ → Connection × F} {port : ℤ} {rows : List (Row F)} {summary : Summary}
    (h : apiPlatform connect services port = .ok (rows, summary)) :
    rows.map Row.name = "TradeWatch API" :: services.map Service.name ∧
      List.Forall₂ (fun service row => row.status = "up" ↔
        (connect service.host service.port).1 = .established) services rows.tail ∧
      summary.up = (rows.filter (fun row => row.status = "up")).length ∧
      summary.down = (rows.filter (fun row => row.status = "down")).length ∧
      summary.up + summary.down = summary.total ∧ 2 ≤ summary.total := by
  have hne : services ≠ [] := by
    rcases accepted_parseServices int hservices with rfl | ⟨hne, _⟩
    · exact List.cons_ne_nil _ _
    · exact hne
  unfold apiPlatform snapshot at h
  obtain ⟨⟨probed, counted⟩, hsnapshot, h⟩ := StateExcept.exists_of_bind_eq_ok h
  obtain ⟨found, hfound, hsnapshot⟩ := StateExcept.exists_of_bind_eq_ok hsnapshot
  cases hsnapshot
  cases h
  have hchecks := checks_eq_ok hfound
  have hcount := length_up_add_down hchecks
  have hlength : services.length = probed.length := hchecks.length_eq
  have hpositive : 0 < services.length := List.length_pos_iff.mpr hne
  refine ⟨?_, ?_, ?_, ?_, ?_, ?_⟩
  · rw [List.map_cons]
    rw [names_of_checks hchecks]
  · refine hchecks.imp fun service row hrow => ?_
    rcases (check_eq_ok hrow).2.2 with ⟨hstatus, hconnect⟩ | ⟨hstatus, hconnect⟩ <;>
      simp [hstatus, hconnect]
  · simp
  · simp
    omega
  · dsimp only
    omega
  · dsimp only
    omega

theorem board_counts_default :
    ∃ rows summary,
      apiPlatform (fun _ _ => (Connection.established, (0 : ℚ))) defaultServices 8000 =
          .ok (rows, summary) ∧
        summary.up + summary.down = summary.total ∧ 2 ≤ summary.total := by
  have hservices : parseServices (fun _ => none) none = .ok defaultServices := rfl
  obtain ⟨rows, summary, hboard⟩ : ∃ rows summary,
      apiPlatform (fun _ _ => (Connection.established, (0 : ℚ))) defaultServices 8000 =
        .ok (rows, summary) := ⟨_, _, rfl⟩
  exact ⟨rows, summary, hboard, (board_counts_rows _ hservices hboard).2.2.2.2⟩

end Board

section BatchStatus

variable {F : Type} [PyFloat F] (py : PyText F)

/-- A decoded object as a dictionary: a later entry takes the place of an earlier
one with its key. -/
def toDict (entries : List (String × Json)) : OrderedDict String Json :=
  entries.foldl (fun data entry => data.set entry.1 entry.2) .empty

/-- What `_batch_status` answers when anything goes wrong. -/
def noHeartbeat : OrderedDict String Json :=
  toDict [("status", .str "unknown"), ("detail", .str "no batch heartbeat yet")]

/-- `_batch_status` on what the file holds, `none` where it cannot be read. `int`
truncates a finite float. -/
def batchStatus (int : F → ℤ) (content : Option (List Char)) (now : F) :
    OrderedDict String Json :=
  match content.bind (fun text => (Json.loads py.nesting (.ofList text)).toOption) with
  | some (.dict entries) =>
      let data := toDict entries
      match py.float ((data.get? "epoch").getD (.int 0)) with
      | .error _ => noHeartbeat
      | .ok epoch =>
          let age := sub now epoch
          let data := data.set "status" (.str (if lt age (ofRat 900) then "up" else "stale"))
          if isFinite age then data.set "age_seconds" (.int (int age)) else noHeartbeat
  | _ => noHeartbeat

end BatchStatus

end TradeWatch.Platform
