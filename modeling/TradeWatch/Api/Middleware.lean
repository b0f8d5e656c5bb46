import TradeWatch.Api.App
import TradeWatch.Lib.JsonTree

/-!
What every request passes through before it comes to a route: the middleware that
gives it an id and turns exceptions into responses, and the one that adds the
hardening headers. The routes are anything that answers a request or raises. Header
names are in lower case, as they are stored.
-/

namespace TradeWatch.Middleware

open PyFloat Json

abbrev Headers := List (String × String)

structure HttpRequest where
  method : String
  path : String
  headers : Headers
  deriving DecidableEq, Repr

structure HttpResponse where
  statusCode : ℕ
  headers : Headers
  body : List Char
  deriving DecidableEq, Repr

/-- `headers.get(name)`: the first of that name. -/
def getHeader (name : String) (headers : Headers) : Option String :=
  (headers.find? (fun header => header.1 = name)).map Prod.snd

/-- `headers.setdefault(name, value)`. -/
def setDefault (headers : Headers) (header : String × String) : Headers :=
  if (getHeader header.1 headers).isSome then headers else headers ++ [header]

/-- `headers[name] = value`: the first of that name is overwritten and any other
dropped. -/
def setHeader (name value : String) : Headers → Headers
  | [] => [(name, value)]
  | header :: rest =>
      if header.1 = name then (name, value) :: rest.filter (fun other => other.1 ≠ name)
      else header :: setHeader name value rest

theorem getHeader_cons (name : String) (header : String × String) (rest : Headers) :
    getHeader name (header :: rest) =
      if header.1 = name then some header.2 else getHeader name rest := by
  by_cases h : header.1 = name <;> simp [getHeader, h]

theorem getHeader_setHeader (name other value : String) (headers : Headers) :
    getHeader other (setHeader name value headers) =
      if other = name then some value else getHeader other headers := by
  induction headers with
  | nil =>
      by_cases h : other = name
      · simp [setHeader, getHeader, h]
      · have hne : ¬ name = other := fun heq => h heq.symm
        simp [setHeader, getHeader, h, hne]
  | cons header rest ih =>
      rw [setHeader]
      by_cases hfirst : header.1 = name
      · have hdropped : ∀ headers : Headers, other ≠ name →
            getHeader other (headers.filter (fun header => header.1 ≠ name)) =
              getHeader other headers := by
          intro headers hne
          rw [getHeader, getHeader, List.find?_filter]
          congr 2
          funext header
          by_cases hheader : header.1 = other <;> simp [hheader, hne]
        rw [if_pos hfirst, getHeader_cons, getHeader_cons, hfirst]
        by_cases h : other = name
        · rw [if_pos h.symm, if_pos h]
        · rw [if_neg (fun heq => h heq.symm), if_neg h, hdropped rest h,
            if_neg (fun heq => h heq.symm)]
      · rw [if_neg hfirst, getHeader_cons, getHeader_cons, ih]
        by_cases h : header.1 = other
        · have hne : ¬ other = name := fun heq => hfirst (h.trans heq)
          rw [if_pos h, if_neg hne, if_pos h]
        · rw [if_neg h, if_neg h]

theorem getHeader_setDefault (other : String) (headers : Headers) (header : String × String) :
    getHeader other (setDefault headers header) =
      if other = header.1 then some ((getHeader header.1 headers).getD header.2)
      else getHeader other headers := by
  unfold setDefault
  by_cases h : other = header.1
  · subst h
    rw [if_pos rfl]
    cases hheld : getHeader header.1 headers with
    | some value => rw [Option.isSome_some, if_pos rfl, hheld, Option.getD_some]
    | none =>
        have hfind : headers.find? (fun held => held.1 = header.1) = none :=
          Option.map_eq_none_iff.mp hheld
        simp [getHeader, hfind]
  · rw [if_neg h]
    split_ifs
    · rfl
    · have hne : ¬ header.1 = other := fun heq => h heq.symm
      simp [getHeader, hne]

/-- Defaults for distinct headers do not interfere. -/
theorem getHeader_setDefaults {name value : String} {defaults : Headers}
    (hnodup : (defaults.map Prod.fst).Nodup) (hmem : (name, value) ∈ defaults) (headers : Headers) :
    getHeader name (defaults.foldl setDefault headers) =
      some ((getHeader name headers).getD value) := by
  have hother : ∀ (defaults : Headers) (headers : Headers), name ∉ defaults.map Prod.fst →
      getHeader name (defaults.foldl setDefault headers) = getHeader name headers := by
    intro defaults
    induction defaults with
    | nil => exact fun _ _ => rfl
    | cons first rest ih =>
        intro headers hnot
        rw [List.map_cons, List.mem_cons, not_or] at hnot
        rw [List.foldl_cons, ih _ hnot.2, getHeader_setDefault, if_neg hnot.1]
  induction defaults generalizing headers with
  | nil => cases hmem
  | cons first rest ih =>
      rw [List.map_cons, List.nodup_cons] at hnodup
      rw [List.foldl_cons]
      rcases List.mem_cons.mp hmem with rfl | hrest
      · rw [hother rest _ hnodup.1, getHeader_setDefault, if_pos rfl]
      · have hne : name ≠ first.1 := by
          rintro rfl
          exact hnodup.1 (List.mem_map.mpr ⟨_, hrest, rfl⟩)
        rw [ih hnodup.2 hrest, getHeader_setDefault, if_neg hne]

section Stack

inductive Level
  | info
  | error
  deriving DecidableEq, Repr

/-- A call of a logger. -/
structure Message where
  level : Level
  message : String
  extraFields : List (String × Value ℚ)

/-- A line of the log, under the request id at the time. -/
structure LogLine where
  requestId : String
  message : Message

/-- The state of the application, the context variable and the log. -/
structure World (σ : Type) where
  app : σ
  requestId : String
  log : List LogLine

/-- A request with what its handling draws from outside. -/
structure Call where
  request : HttpRequest
  newRequestId : String
  elapsedMs : ℚ

variable {σ : Type}

/-- The router and the routes: an answer or an exception, with the calls of loggers
on the way. -/
abbrev Routes (σ : Type) :=
  HttpRequest → σ → Except PyError HttpResponse × σ × List Message

abbrev Handler (σ : Type) := Call → World σ → Except PyError HttpResponse × World σ

/-- A line that is logged, stamped by the formatter. -/
def World.logged (w : World σ) (messages : List Message) : World σ :=
  { w with log := w.log ++ messages.map (fun message => ⟨w.requestId, message⟩) }

def routed (routes : Routes σ) : Handler σ := fun call w =>
  let (answer, app, messages) := routes call.request w.app
  (answer, { w with app := app }.logged messages)

def defaultCsp : String :=
  "default-src 'self'; script-src 'self' 'unsafe-inline'; " ++
    "style-src 'self' 'unsafe-inline'; img-src 'self' data:; " ++
    "connect-src 'self' ws: wss:; base-uri 'none'; frame-ancestors 'none'"

def hardening (csp : String) : Headers :=
  [("x-content-type-options", "nosniff"), ("x-frame-options", "DENY"),
    ("referrer-policy", "no-referrer"), ("x-xss-protection", "0"),
    ("content-security-policy", csp),
    ("permissions-policy", "geolocation=(), microphone=(), camera=()")]

/-- `SecurityHeadersMiddleware`. -/
def securityHeaders (csp : Option String) (callNext : Handler σ) : Handler σ := fun call w =>
  let csp := if truthy csp then csp.getD "" else defaultCsp
  match callNext call w with
  | (.error err, w) => (.error err, w)
  | (.ok response, w) =>
      (.ok { response with headers := (hardening csp).foldl setDefault response.headers }, w)

/-- The id of a request: its own if it brings one. -/
def requestIdOf (call : Call) : String :=
  let given := getHeader "x-request-id" call.request.headers
  if truthy given then given.getD "" else call.newRequestId

def unhandled (request : HttpRequest) : Message where
  level := .error
  message := "unhandled error on " ++ request.method ++ " " ++ request.path
  extraFields := [("path", .str request.path), ("method", .str request.method)]

def access (request : HttpRequest) (statusCode : ℕ) (elapsedMs : ℚ) : Message where
  level := .info
  message := request.method ++ " " ++ request.path ++ " -> " ++ toString statusCode ++ " (" ++
    format elapsedMs (.fixed 1) ++ "ms)"
  extraFields :=
    [("path", .str request.path), ("method", .str request.method), ("status", .int statusCode),
      ("latency_ms", .float (round elapsedMs 1))]

/-- No entry of an error body is a number. -/
def noNumbers : NumberText Empty := ⟨Empty.elim, Empty.elim⟩

def errorBody (requestId : String) : Value Empty :=
  .dict [("error", .str "internal server error"), ("request_id", .str requestId)]

/-- The `JSONResponse` that takes the place of an exception. -/
def internalServerError (requestId : String) : HttpResponse :=
  let body := Value.text .compact noNumbers (errorBody requestId)
  { statusCode := 500
    headers := [("content-length", toString (String.ofList body).utf8ByteSize),
      ("content-type", "application/json")]
    body := body }

/-- `RequestContextMiddleware`. -/
def requestContext (callNext : Handler σ) : Handler σ := fun call w =>
  let requestId := requestIdOf call
  match callNext call { w with requestId := requestId } with
  | (.error _, inner) =>
      let inner := inner.logged [unhandled call.request]
      (.ok (internalServerError requestId), { inner with requestId := w.requestId })
  | (.ok response, inner) =>
      let response := { response with
        headers := setHeader "x-request-id" requestId response.headers }
      let inner :=
        if call.request.path = "/health" then inner
        else inner.logged [access call.request response.statusCode call.elapsedMs]
      (.ok response, { inner with requestId := w.requestId })

/-- `add_middleware`: the last one added is the outermost. -/
def addMiddleware (middleware : Handler σ → Handler σ)
    (stack : List (Handler σ → Handler σ)) : List (Handler σ → Handler σ) := middleware :: stack

/-- The middleware of `create_app`, `cors` being the one of the framework where the
settings name an origin. -/
def userMiddleware (cors : Option (Handler σ → Handler σ)) : List (Handler σ → Handler σ) :=
  let stack := addMiddleware requestContext (addMiddleware (securityHeaders none) [])
  match cors with
  | none => stack
  | some cors => addMiddleware cors stack

def serve (cors : Option (Handler σ → Handler σ)) (routes : Routes σ) : Handler σ :=
  (userMiddleware cors).foldr (fun middleware next => middleware next) (routed routes)

theorem hardening_nodup (csp : String) : ((hardening csp).map Prod.fst).Nodup := by
  change ["x-content-type-options", "x-frame-options", "referrer-policy", "x-xss-protection",
    "content-security-policy", "permissions-policy"].Nodup
  decide

theorem requestId_notMem_hardening (csp : String) :
    "x-request-id" ∉ (hardening csp).map Prod.fst := by
  change "x-request-id" ∉ ["x-content-type-options", "x-frame-options", "referrer-policy",
    "x-xss-protection", "content-security-policy", "permissions-policy"]
  decide

theorem parse_internalServerError (requestId : String) :
    parse (.ofList (internalServerError requestId).body) =
      some (.dict [("error", .str "internal server error"), ("request_id", .str requestId)]) :=
  Value.parse_text ⟨trivial, trivial, trivial⟩

/-- An error response has none of the headers that a middleware adds. -/
theorem getHeader_internalServerError {name : String} (requestId csp : String)
    (h : name = "x-request-id" ∨ name ∈ (hardening csp).map Prod.fst) :
    getHeader name (internalServerError requestId).headers = none := by
  have hnames : ∀ name ∈ ["x-request-id", "x-content-type-options", "x-frame-options",
      "referrer-policy", "x-xss-protection", "content-security-policy", "permissions-policy"],
      ¬ "content-length" = name ∧ ¬ "content-type" = name := by
    decide
  have hne := hnames name (List.mem_cons.mpr h)
  rw [internalServerError, getHeader_cons, if_neg hne.1, getHeader_cons, if_neg hne.2]
  rfl

/-- What a response owes to a route that answers. -/
structure Hardened (requestId : String) (inner response : HttpResponse) : Prop where
  statusCode : response.statusCode = inner.statusCode
  body : response.body = inner.body
  requestId : getHeader "x-request-id" response.headers = some requestId
  headers : ∀ header ∈ hardening defaultCsp, getHeader header.1 response.headers =
    some ((getHeader header.1 inner.headers).getD header.2)

/-- What a client gets where the route raises. -/
structure Bare (requestId : String) (response : HttpResponse) : Prop where
  statusCode : response.statusCode = 500
  body : parse (.ofList response.body) =
    some (.dict [("error", .str "internal server error"), ("request_id", .str requestId)])
  requestId : getHeader "x-request-id" response.headers = none
  headers : ∀ header ∈ hardening defaultCsp, getHeader header.1 response.headers = none

theorem hardened_headers (requestId : String) (inner : HttpResponse) :
    Hardened requestId inner { inner with
      headers := setHeader "x-request-id" requestId
        ((hardening defaultCsp).foldl setDefault inner.headers) } where
  statusCode := rfl
  body := rfl
  requestId := by
    dsimp only
    rw [getHeader_setHeader, if_pos rfl]
  headers header hheader := by
    have hne : header.1 ≠ "x-request-id" := by
      intro heq
      exact requestId_notMem_hardening defaultCsp (heq ▸ List.mem_map_of_mem hheader)
    dsimp only
    rw [getHeader_setHeader, if_neg hne, getHeader_setDefaults (hardening_nodup _) hheader]

theorem bare_internalServerError (requestId : String) :
    Bare requestId (internalServerError requestId) where
  statusCode := rfl
  body := parse_internalServerError requestId
  requestId := getHeader_internalServerError requestId defaultCsp (Or.inl rfl)
  headers _ hheader :=
    getHeader_internalServerError requestId defaultCsp (Or.inr (List.mem_map_of_mem hheader))

theorem serve_eq (routes : Routes σ) (call : Call) (w : World σ) :
    serve none routes call w =
      requestContext (securityHeaders none (routed routes)) call w := rfl

theorem securityHeaders_eq (callNext : Handler σ) (call : Call) (w : World σ) :
    securityHeaders none callNext call w =
      match callNext call w with
      | (.error err, w) => (.error err, w)
      | (.ok response, w) =>
          (.ok { response with
            headers := (hardening defaultCsp).foldl setDefault response.headers }, w) := rfl

end Stack

section Trades

variable {D F : Type} [PyFloat F] [Detector D F]

/-- `POST /trades` as a route. `decode` is what the framework makes of a request,
`render` the body of an answer, and `raised` what an engine that raises raises. -/
def tradeRoute (cases : CaseMap) (decode : HttpRequest → Request F)
    (render : Response F → List Char) (raised : PyError) : Routes (AppState D F) :=
  fun request s =>
    let (response, s) := s.post cases (decode request)
    match response with
    | .serverError => (.error raised, s, [])
    | response =>
        (.ok ⟨response.status, [("content-type", "application/json")], render response⟩, s, [])

/-- The statuses that the route's answers stand for are those that a client sees,
500 among them, and the state goes through unchanged. -/
theorem tradeRoute_served (cases : CaseMap) (decode : HttpRequest → Request F)
    (render : Response F → List Char) (raised : PyError) (call : Call) (w : World (AppState D F)) :
    ∃ response w', serve none (tradeRoute cases decode render raised) call w = (.ok response, w') ∧
      response.statusCode = (w.app.post cases (decode call.request)).1.status ∧
      w'.app = (w.app.post cases (decode call.request)).2 := by
  rcases hpost : w.app.post cases (decode call.request) with ⟨response, s⟩
  rw [serve_eq, requestContext]
  dsimp only
  rw [securityHeaders_eq, routed]
  dsimp only
  rw [tradeRoute, hpost]
  cases response with
  | serverError => exact ⟨_, _, rfl, rfl, rfl⟩
  | _ =>
      refine ⟨_, _, rfl, rfl, ?_⟩
      dsimp only
      split_ifs <;> rfl

end Trades

end TradeWatch.Middleware
