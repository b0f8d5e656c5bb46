import TradeWatch.Api.Security
import TradeWatch.Lib.RotatingFile
import TradeWatch.Sinks.JsonlFile

/-!
The audit trail on disk. A record becomes one line of JSON, and the lines go to a
file that is rolled over before it reaches five million characters, with three
backups. The text is ASCII, so a character is a byte.
-/

namespace TradeWatch

open Json RotatingFile

/-- An audited action, with the time and the request that its line bears. -/
structure Audited where
  ts : String
  requestId : String
  record : AuditRecord
  deriving DecidableEq, Repr

/-- No audit record holds a float. -/
def AuditValue.toValue : AuditValue → Value Empty
  | .text s => .str s
  | .flag b => .bool b
  | .number n => .int n

/-- No float is ever written. -/
def noFloats : NumberText Empty := ⟨Empty.elim, Empty.elim⟩

namespace Audited

/-- The payload of `format`: the fields of the record are set last, and take the
place of a key that is there already. -/
def payload (audited : Audited) : OrderedDict String (Value Empty) :=
  let base := ((((OrderedDict.empty.set "ts" (.str audited.ts)).set "level" (.str "INFO")).set
    "logger" (.str "tradewatch.audit")).set "msg" (.str audited.record.action)).set
      "request_id" (.str audited.requestId)
  let named := ((base.set "action" (.str audited.record.action)).set
    "outcome" (.str audited.record.outcome)).set "audit" (.bool true)
  audited.record.fields.foldl (fun d field => d.set field.1 field.2.toValue) named

/-- `JsonFormatter.format`. -/
def format (audited : Audited) : List Char :=
  Value.text .dumps noFloats (.dict audited.payload.entries)

def decoded (audited : Audited) : Json := Value.toJson noFloats (.dict audited.payload.entries)

/-- What the handler writes for one record. -/
def line (audited : Audited) : List Char := audited.format ++ ['\n']

/-- Python converts every count of the record to text. -/
def Prints (audited : Audited) : Prop :=
  Value.Prints noFloats (.dict audited.payload.entries)

end Audited

/-- `RotatingFileHandler(path, maxBytes=5_000_000, backupCount=3)`, given some
records. -/
def auditFiles (history : List Audited) : Files Char :=
  RotatingFile.run 5000000 3 (history.map Audited.line)

theorem readable_lines {history : List Audited} (hprints : ∀ audited ∈ history, audited.Prints) :
    Sinks.readable (history.map Audited.line).flatten = history.map Audited.decoded := by
  induction history with
  | nil => rfl
  | cons audited rest ih =>
      obtain ⟨hfirst, hrest⟩ := List.forall_mem_cons.mp hprints
      have hnewline : '\n' ∉ audited.format := Value.newline_notMem_text _ hfirst
      have hne : audited.format ≠ [] := by
        obtain ⟨inner, htext⟩ := Value.text_dict_eq .dumps noFloats audited.payload.entries
        rw [Audited.format, htext]
        exact List.cons_ne_nil _ _
      rw [List.map_cons, List.map_cons, List.flatten_cons, Audited.line, List.append_assoc,
        List.singleton_append, Sinks.readable_line hnewline hne, ih hrest, Audited.format,
        Value.parse_text hfirst]
      rfl

/-- Whatever is audited, in whatever amount: read oldest file first, line by line, the
files give the last records, each of them whole and none of them twice. No file
outgrows the bound by more than one line asks for; there are at most three backups, each
full to within a line; and records are only given up when there are three. -/
theorem audit_reads_back {history : List Audited} {longest : ℕ}
    (hprints : ∀ audited ∈ history, audited.Prints)
    (hlongest : ∀ audited ∈ history, audited.line.length ≤ longest) :
    ∃ lost kept, history = lost ++ kept ∧
      (auditFiles history).kept = (kept.map Audited.line).flatten ∧
      Sinks.readable (auditFiles history).kept = kept.map Audited.decoded ∧
      (∀ file ∈ (auditFiles history).current :: (auditFiles history).backups,
        file.length ≤ max 5000000 longest) ∧
      (auditFiles history).backups.length ≤ 3 ∧
      (∀ file ∈ (auditFiles history).backups, 5000000 ≤ file.length + longest) ∧
      (lost ≠ [] → (auditFiles history).backups.length = 3) := by
  have hlines : ∀ message ∈ history.map Audited.line, message.length ≤ longest := by
    intro message hmessage
    obtain ⟨audited, haudited, rfl⟩ := List.mem_map.mp hmessage
    exact hlongest audited haudited
  obtain ⟨lostLines, keptLines, hsplit, hkept, hsized, hcount, hfull⟩ := run_keeps 5000000 3 hlines
  obtain ⟨lost, kept, rfl, rfl, rfl⟩ := List.map_eq_append_iff.mp hsplit
  refine ⟨lost, kept, rfl, hkept, ?_, ?_, hcount, hsized.closed, ?_⟩
  · rw [auditFiles, hkept]
    exact readable_lines
      (fun audited haudited => hprints audited (List.mem_append_right _ haudited))
  · intro file hfile
    rcases List.mem_cons.mp hfile with rfl | hbackup
    · exact hsized.current_le
    · exact hsized.backup_le file hbackup
  · intro hlost
    exact hfull (by simpa using hlost)

/-- The record of a request without the key. -/
def denied (requestId : String) : Audited where
  ts := "2025-01-01T00:00:00.000Z"
  requestId := requestId
  record := ⟨"auth_failure", "denied", [("client", .text "10.0.0.1"), ("path", .text "/trades")]⟩

theorem denied_prints (requestId : String) : (denied requestId).Prints :=
  ⟨trivial, trivial, trivial, trivial, trivial, trivial, trivial, trivial, trivial, trivial,
    trivial⟩

/-- A guesser of keys who is refused two hundred thousand times. -/
def refusals : List Audited := List.replicate 200000 (denied "a1")

theorem denied_line_length : (denied "a1").line.length = 228 := by
  decide +kernel

/-- That is more than the files hold: there are three full backups, and the first refusals
are gone. -/
theorem audit_reads_back_refusals :
    ∃ lost kept, refusals = lost ++ kept ∧ lost ≠ [] ∧
      Sinks.readable (auditFiles refusals).kept = kept.map Audited.decoded ∧
      (auditFiles refusals).backups.length = 3 ∧
      ∀ file ∈ (auditFiles refusals).backups, 5000000 ≤ file.length + 228 := by
  have hall : ∀ audited ∈ refusals, audited = denied "a1" :=
    fun audited haudited => List.eq_of_mem_replicate haudited
  have hprints : ∀ audited ∈ refusals, audited.Prints :=
    fun audited haudited => hall audited haudited ▸ denied_prints "a1"
  have hlongest : ∀ audited ∈ refusals, audited.line.length ≤ 228 :=
    fun audited haudited => hall audited haudited ▸ denied_line_length.le
  obtain ⟨lost, kept, hsplit, htext, hread, hsizes, hcount, hclosed, hfull⟩ :=
    audit_reads_back hprints hlongest
  have hroom := Files.kept_length_le hsizes
  have hfour : ((auditFiles refusals).backups.length + 1) * max 5000000 228 ≤
      4 * max 5000000 228 :=
    Nat.mul_le_mul_right _ (by omega)
  have hlost : lost ≠ [] := by
    rintro rfl
    rw [List.nil_append] at hsplit
    have hlength : (auditFiles refusals).kept.length = 200000 * 228 := by
      rw [htext, ← hsplit, refusals, List.map_replicate, List.length_flatten, List.map_replicate,
        List.sum_replicate, denied_line_length, smul_eq_mul]
    omega
  exact ⟨lost, kept, hsplit, hlost, hread, hfull hlost, hclosed⟩

end TradeWatch
