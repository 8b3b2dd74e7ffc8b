import Cascette.Agent.Operation
import Cascette.Lib.Except
import Cascette.Lib.OrderBy
import Mathlib.Data.String.Basic

/-!
# Operation queue

The queue keeps operations as rows of texts. One set of functions writes the texts of an operation's
type, state and priority, another set reads them, and a listing fails as a whole when one of its
rows cannot be read. The list of entries that insertions and updates ask for (`Ledger`) says what
the table should hold; every row stands for its entry (`Row.Represents`).
-/

namespace Cascette.Agent

open Lib List

/-! ## Rows -/

structure Row where
  operationId : String
  productCode : String
  operationType : String
  state : String
  priority : String
  parameters : Option String
  metadata : Option String
  progress : Option String
  error : Option String
  createdAt : String
  updatedAt : String
  startedAt : Option String
  completedAt : Option String
  deriving DecidableEq

/-- The codes of the products and the rows of the operations. -/
structure Database where
  products : List String
  operations : List Row

/-- The texts of identifiers, times and JSON values. -/
structure Texts (Id Value Time : Type) where
  uuid : Id → String
  parseUuid : String → Except String Id
  display : Value → String
  toJson : Value → Except String String
  fromJson : String → Except String Value
  rfc3339 : Time → String
  parseRfc3339 : String → Option Time

def parseOperationType (s : String) : Except AgentError OperationType :=
  match s with
  | "install" => .ok .install
  | "update" => .ok .update
  | "repair" => .ok .repair
  | "verify" => .ok .verify
  | "uninstall" => .ok .uninstall
  | "backfill" => .ok .backfill
  | _ => .error (.schema ("unknown operation type: " ++ s))

def parseOperationState (s : String) : Except AgentError OperationState :=
  match s with
  | "queued" => .ok .queued
  | "initializing" => .ok .initializing
  | "downloading" => .ok .downloading
  | "verifying" => .ok .verifying
  | "complete" => .ok .complete
  | "failed" => .ok .failed
  | "cancelled" => .ok .cancelled
  | _ => .error (.schema ("unknown operation state: " ++ s))

def parsePriority (s : String) : Except AgentError Priority :=
  match s with
  | "low" => .ok .low
  | "normal" => .ok .normal
  | "high" => .ok .high
  | _ => .error (.schema ("unknown priority: " ++ s))

theorem parseOperationState_fmt (s : OperationState) : parseOperationState s.fmt = .ok s := by
  cases s <;> rfl

theorem parsePriority_fmt (p : Priority) : parsePriority p.fmt = .ok p := by
  cases p <;> rfl

theorem parseOperationType_fmt {t : OperationType} (h : t ≠ .extract) :
    parseOperationType t.fmt = .ok t := by
  cases t <;> first | rfl | exact absurd rfl h

section Queue

variable {Id Value Time : Type} (texts : Texts Id Value Time) (order : OrderBy Row)

def jsonText (value : Option Value) : Except AgentError (Option String) :=
  match value with
  | none => .ok none
  | some v => ((texts.toJson v).mapError AgentError.json).map some

def parseJson (text : Option String) : Except AgentError (Option Value) :=
  match text with
  | none => .ok none
  | some s => ((texts.fromJson s).mapError AgentError.json).map some

/-- A time that cannot be read is replaced by the time of the reading. -/
def rowToOperation (now : Time) (row : Row) : Except AgentError (Operation Id Value Time) := do
  let operationId ←
    (texts.parseUuid row.operationId).mapError fun e => .schema ("invalid UUID: " ++ e)
  let operationType ← parseOperationType row.operationType
  let state ← parseOperationState row.state
  let priority ← parsePriority row.priority
  let parameters ← parseJson texts row.parameters
  let metadata ← parseJson texts row.metadata
  let progress ← parseJson texts row.progress
  let error ← parseJson texts row.error
  .ok
    { operationId, productCode := row.productCode, operationType, state, priority, parameters
      metadata, progress, error
      createdAt := (texts.parseRfc3339 row.createdAt).getD now
      updatedAt := (texts.parseRfc3339 row.updatedAt).getD now
      startedAt := row.startedAt.bind texts.parseRfc3339
      completedAt := row.completedAt.bind texts.parseRfc3339 }

namespace Database

variable (now : Time) (db : Database)

def get (operationId : String) : Except AgentError (Operation Id Value Time) :=
  match db.operations.find? fun row => row.operationId = operationId with
  | some row => rowToOperation texts now row
  | none => .error (.operationNotFound operationId)

def findActiveForProduct (productCode : String) :
    Except AgentError (Option (Operation Id Value Time)) :=
  let rows := db.operations.filter fun row =>
    row.productCode = productCode ∧ row.state ∉ ["complete", "failed", "cancelled"]
  match (order.sort (fun row => OrderDual.toDual row.createdAt) rows).head? with
  | some row => (rowToOperation texts now row).map some
  | none => .ok none

/-- The rank that the query gives to the text of a priority. -/
def priorityRank (priority : String) : Nat :=
  if priority = "high" then 0 else if priority = "normal" then 1 else 2

def getQueued : Except AgentError (List (Operation Id Value Time)) :=
  (order.sort (fun row => toLex (priorityRank row.priority, row.createdAt))
    (db.operations.filter fun row => row.state = "queued")).mapM (rowToOperation texts now)

/-- The new row is refused when its identifier is taken or its product is not known. -/
def insertRow (row : Row) : Except AgentError Database :=
  if row.operationId ∈ db.operations.map Row.operationId ∨ row.productCode ∉ db.products then
    .error .database
  else .ok { db with operations := db.operations ++ [row] }

def insert (operation : Operation Id Value Time) : Except AgentError Database := do
  match ← db.findActiveForProduct texts order now operation.productCode with
  | some active => .error (.activeOperationExists operation.productCode active.operationType.fmt)
  | none =>
    let parameters ← jsonText texts operation.parameters
    let progress ← jsonText texts operation.progress
    let error ← jsonText texts operation.error
    db.insertRow
      { operationId := texts.uuid operation.operationId
        productCode := operation.productCode
        operationType := operation.operationType.fmt
        state := operation.state.fmt
        priority := operation.priority.fmt
        parameters, metadata := operation.metadata.map texts.display, progress, error
        createdAt := texts.rfc3339 now
        updatedAt := texts.rfc3339 now
        startedAt := operation.startedAt.map texts.rfc3339
        completedAt := operation.completedAt.map texts.rfc3339 }

/-- The columns that an update writes. -/
def setColumns (operation : Operation Id Value Time) (progress error : Option String) (row : Row) :
    Row :=
  { row with
    state := operation.state.fmt
    priority := operation.priority.fmt
    progress, error
    metadata := operation.metadata.map texts.display
    updatedAt := texts.rfc3339 now
    startedAt := operation.startedAt.map texts.rfc3339
    completedAt := operation.completedAt.map texts.rfc3339 }

def update (operation : Operation Id Value Time) : Except AgentError Database := do
  let progress ← jsonText texts operation.progress
  let error ← jsonText texts operation.error
  .ok { db with
    operations := db.operations.map fun row =>
      if row.operationId = texts.uuid operation.operationId then
        setColumns texts now operation progress error row
      else row }

end Database

end Queue

/-! ## Entries -/

/-- What the table should hold of an operation. -/
structure Entry (Id Time : Type) where
  operationId : Id
  productCode : String
  operationType : OperationType
  state : OperationState
  priority : Priority
  createdAt : Time

variable {Id Value Time : Type}

def Operation.entry (operation : Operation Id Value Time) : Entry Id Time :=
  { operationId := operation.operationId
    productCode := operation.productCode
    operationType := operation.operationType
    state := operation.state
    priority := operation.priority
    createdAt := operation.createdAt }

def Priority.rank : Priority → Nat
  | .high => 0
  | .normal => 1
  | .low => 2

def Entry.key (entry : Entry Id Time) : Nat ×ₗ Time := toLex (entry.priority.rank, entry.createdAt)

abbrev Ledger (Id Time : Type) := List (Entry Id Time)

namespace Ledger

variable (ledger : Ledger Id Time)

def queued : Ledger Id Time := ledger.filter fun entry => entry.state = .queued

/-- The state and the priority of one operation are replaced. -/
def set [DecidableEq Id] (operationId : Id) (state : OperationState) (priority : Priority) :
    Ledger Id Time :=
  ledger.map fun entry =>
    if entry.operationId = operationId then { entry with state, priority } else entry

/-- A listing of the queued operations by priority and then creation time. -/
structure Lists [LinearOrder Time] (listing : Ledger Id Time) : Prop where
  perm : listing.Perm ledger.queued
  sorted : listing.Pairwise fun a b => a.key ≤ b.key

end Ledger

/-! ## Reading a row back -/

/-- What is assumed of the texts: identifiers and times are read back, what was written as JSON can
be read, and the texts of times are in the order of the times. A progress whose percentage is not
finite is no value here: it is written as null, which is not read as a number. -/
structure Texts.Faithful [LinearOrder Time] (texts : Texts Id Value Time) : Prop where
  parseUuid_uuid : ∀ id, texts.parseUuid (texts.uuid id) = .ok id
  display_readable : ∀ v, ∃ w, texts.fromJson (texts.display v) = .ok w
  toJson_readable : ∀ v s, texts.toJson v = .ok s → ∃ w, texts.fromJson s = .ok w
  parseRfc3339_rfc3339 : ∀ t, texts.parseRfc3339 (texts.rfc3339 t) = some t
  le_of_rfc3339_le : ∀ a b, texts.rfc3339 a ≤ texts.rfc3339 b → a ≤ b

def Texts.Readable (texts : Texts Id Value Time) (text : Option String) : Prop :=
  ∃ value, parseJson texts text = .ok value

/-- The row holds the texts of the entry, and its JSON can be read. -/
structure Row.Represents (texts : Texts Id Value Time) (row : Row) (entry : Entry Id Time) :
    Prop where
  operationId : row.operationId = texts.uuid entry.operationId
  productCode : row.productCode = entry.productCode
  operationType : row.operationType = entry.operationType.fmt
  state : row.state = entry.state.fmt
  priority : row.priority = entry.priority.fmt
  createdAt : row.createdAt = texts.rfc3339 entry.createdAt
  parameters : texts.Readable row.parameters
  metadata : texts.Readable row.metadata
  progress : texts.Readable row.progress
  error : texts.Readable row.error

section Reading

variable [LinearOrder Time] {texts : Texts Id Value Time} {row : Row} {entry : Entry Id Time}

variable (hTexts : texts.Faithful)
include hTexts

theorem uuid_inj {a b : Id} (h : texts.uuid a = texts.uuid b) : a = b := by
  have hParse := hTexts.parseUuid_uuid a
  rw [h, hTexts.parseUuid_uuid b] at hParse
  exact (Except.ok.inj hParse).symm

theorem readable_of_jsonText {value : Option Value} {text : Option String}
    (h : jsonText texts value = .ok text) : texts.Readable text := by
  cases value with
  | none =>
    cases h
    exact ⟨none, rfl⟩
  | some v =>
    simp only [jsonText] at h
    cases hJson : texts.toJson v with
    | error e => rw [hJson] at h; cases h
    | ok s =>
      rw [hJson] at h
      cases h
      obtain ⟨w, hw⟩ := hTexts.toJson_readable v s hJson
      exact ⟨some w, by simp only [parseJson, hw]; rfl⟩

theorem readable_display (value : Option Value) : texts.Readable (value.map texts.display) := by
  cases value with
  | none => exact ⟨none, rfl⟩
  | some v =>
    obtain ⟨w, hw⟩ := hTexts.display_readable v
    exact ⟨some w, by simp only [Option.map_some, parseJson, hw]; rfl⟩

theorem rowToOperation_of_represents (h : row.Represents texts entry)
    (hType : entry.operationType ≠ .extract) (now : Time) :
    ∃ operation, rowToOperation texts now row = .ok operation ∧ operation.entry = entry := by
  obtain ⟨parameters, hParameters⟩ := h.parameters
  obtain ⟨metadata, hMetadata⟩ := h.metadata
  obtain ⟨progress, hProgress⟩ := h.progress
  obtain ⟨error, hError⟩ := h.error
  have hRead : rowToOperation texts now row = .ok
      { operationId := entry.operationId, productCode := row.productCode
        operationType := entry.operationType, state := entry.state, priority := entry.priority
        parameters, metadata, progress, error
        createdAt := (texts.parseRfc3339 row.createdAt).getD now
        updatedAt := (texts.parseRfc3339 row.updatedAt).getD now
        startedAt := row.startedAt.bind texts.parseRfc3339
        completedAt := row.completedAt.bind texts.parseRfc3339 } := by
    rw [rowToOperation, h.operationId, hTexts.parseUuid_uuid, mapError_ok, ok_bind, h.operationType,
      parseOperationType_fmt hType, ok_bind, h.state, parseOperationState_fmt, ok_bind, h.priority,
      parsePriority_fmt, ok_bind, hParameters, ok_bind, hMetadata, ok_bind, hProgress, ok_bind,
      hError, ok_bind]
  refine ⟨_, hRead, ?_⟩
  simp only [Operation.entry, h.productCode, h.createdAt, hTexts.parseRfc3339_rfc3339,
    Option.getD_some]

theorem rowToOperation_extract (h : row.Represents texts entry)
    (hType : entry.operationType = .extract) (now : Time) :
    rowToOperation texts now row = .error (.schema "unknown operation type: extract") := by
  rw [rowToOperation, h.operationId, hTexts.parseUuid_uuid, mapError_ok, ok_bind, h.operationType,
    hType]
  rfl

end Reading

/-! ## What the queue returns -/

/-- Every row stands for its entry, and no identifier occurs twice. -/
structure Database.Holds (texts : Texts Id Value Time) (db : Database) (ledger : Ledger Id Time) :
    Prop where
  rows : List.Forall₂ (Row.Represents texts) db.operations ledger
  nodup : (ledger.map Entry.operationId).Nodup

section Returns

variable [LinearOrder Time] {texts : Texts Id Value Time} {order : OrderBy Row} {db : Database}
  {ledger : Ledger Id Time} {now : Time}

variable {entry : Entry Id Time} {rows : List Row}

variable (hTexts : texts.Faithful)
include hTexts

theorem find_row (hRows : Forall₂ (Row.Represents texts) rows ledger)
    (hNodup : (ledger.map Entry.operationId).Nodup) (hEntry : entry ∈ ledger) :
    ∃ row, rows.find? (fun row => row.operationId = texts.uuid entry.operationId) = some row ∧
      row.Represents texts entry := by
  induction hRows with
  | nil => cases hEntry
  | @cons row first rows ledger hFirst _ ih =>
    rw [map_cons, nodup_cons] at hNodup
    rcases mem_cons.mp hEntry with rfl | hEntry
    · refine ⟨row, ?_, hFirst⟩
      exact find?_cons_of_pos (decide_eq_true hFirst.operationId)
    · obtain ⟨found, hFound, hRep⟩ := ih hNodup.2 hEntry
      refine ⟨found, ?_, hRep⟩
      rw [find?_cons_of_neg, hFound]
      rw [decide_eq_true_eq, hFirst.operationId]
      intro hEq
      exact hNodup.1 (mem_map.mpr ⟨entry, hEntry, (uuid_inj hTexts hEq).symm⟩)

theorem Database.Holds.get (h : db.Holds texts ledger)
    (hEntry : entry ∈ ledger) (hType : entry.operationType ≠ .extract) :
    ∃ operation, db.get texts now (texts.uuid entry.operationId) = .ok operation ∧
      operation.entry = entry := by
  obtain ⟨row, hFind, hRow⟩ := find_row hTexts h.rows h.nodup hEntry
  obtain ⟨operation, hRead, hSame⟩ := rowToOperation_of_represents hTexts hRow hType now
  refine ⟨operation, ?_, hSame⟩
  rw [Database.get, hFind]
  exact hRead

theorem Database.Holds.get_extract (h : db.Holds texts ledger)
    (hEntry : entry ∈ ledger) (hType : entry.operationType = .extract) :
    db.get texts now (texts.uuid entry.operationId) =
      .error (.schema "unknown operation type: extract") := by
  obtain ⟨row, hFind, hRow⟩ := find_row hTexts h.rows h.nodup hEntry
  rw [Database.get, hFind]
  exact rowToOperation_extract hTexts hRow hType now

omit hTexts

theorem priorityRank_fmt (p : Priority) : Database.priorityRank p.fmt = p.rank := by
  cases p <;> rfl

variable (hTexts : texts.Faithful)
include hTexts

theorem key_le_of_represents {a b : Row} {x y : Entry Id Time}
    (ha : a.Represents texts x) (hb : b.Represents texts y)
    (h : toLex (Database.priorityRank a.priority, a.createdAt) ≤
      toLex (Database.priorityRank b.priority, b.createdAt)) : x.key ≤ y.key := by
  rw [ha.priority, hb.priority, ha.createdAt, hb.createdAt, priorityRank_fmt, priorityRank_fmt,
    Prod.Lex.toLex_le_toLex] at h
  rw [Entry.key, Entry.key, Prod.Lex.toLex_le_toLex]
  exact h.imp id fun h => ⟨h.1, hTexts.le_of_rfc3339_le _ _ h.2⟩

theorem Database.Holds.listing (h : db.Holds texts ledger) (order : OrderBy Row) :
    ∃ listing, ledger.Lists listing ∧ Forall₂ (Row.Represents texts)
      (order.sort (fun row => toLex (Database.priorityRank row.priority, row.createdAt))
        (db.operations.filter fun row => row.state = "queued")) listing := by
  have hQueued : Forall₂ (Row.Represents texts)
      (db.operations.filter fun row => row.state = "queued") ledger.queued := by
    refine rel_filter (fun row entry hRep => ?_) h.rows
    simp only [decide_eq_true_eq, hRep.state]
    constructor
    · exact fun hEq => OperationState.fmt_inj (t := .queued) hEq
    · intro hEq
      rw [hEq]
      rfl
  obtain ⟨listing, hListing, hPerm, hSorted⟩ := order.exists_sorted Entry.key hQueued
    fun a b x y ha hb hLe => key_le_of_represents hTexts ha hb hLe
  exact ⟨listing, ⟨hPerm, hSorted⟩, hListing⟩

theorem mapM_rowToOperation (now : Time)
    {listing : Ledger Id Time} (h : Forall₂ (Row.Represents texts) rows listing)
    (hType : ∀ entry ∈ listing, entry.operationType ≠ .extract) :
    ∃ operations, rows.mapM (rowToOperation texts now) = .ok operations ∧
      operations.map Operation.entry = listing := by
  induction h with
  | nil => exact ⟨[], rfl, rfl⟩
  | @cons row entry rows listing hRow _ ih =>
    obtain ⟨hHead, hTail⟩ := forall_mem_cons.mp hType
    obtain ⟨operation, hRead, hSame⟩ := rowToOperation_of_represents hTexts hRow hHead now
    obtain ⟨operations, hReads, hRest⟩ := ih hTail
    refine ⟨operation :: operations, ?_, ?_⟩
    · rw [mapM_cons, hRead, ok_bind, hReads, ok_bind]
      rfl
    · rw [map_cons, hSame, hRest]

theorem Database.Holds.getQueued (h : db.Holds texts ledger)
    (hType : ∀ entry ∈ ledger.queued, entry.operationType ≠ .extract) :
    ∃ operations, db.getQueued texts order now = .ok operations ∧
      ledger.Lists (operations.map Operation.entry) := by
  obtain ⟨listing, hLists, hRows⟩ := h.listing hTexts order
  obtain ⟨operations, hRead, rfl⟩ := mapM_rowToOperation hTexts now hRows
    fun entry hEntry => hType entry (hLists.perm.mem_iff.mp hEntry)
  exact ⟨operations, hRead, hLists⟩

/-- One queued operation whose type cannot be read makes the listing fail. -/
theorem Database.Holds.getQueued_extract (h : db.Holds texts ledger)
    (hEntry : entry ∈ ledger.queued) (hType : entry.operationType = .extract) :
    ∃ e, db.getQueued texts order now = .error e := by
  obtain ⟨listing, hLists, hRows⟩ := h.listing hTexts order
  obtain ⟨row, hRow, hRep⟩ := forall₂_mem_right hRows (hLists.perm.mem_iff.mpr hEntry)
  exact exists_mapM_error_iff.mpr ⟨row, hRow, _, rowToOperation_extract hTexts hRep hType now⟩

omit hTexts

/-- Every operation is returned with its entry, and the queued ones are listed in their order. -/
def Database.Serves (texts : Texts Id Value Time) (order : OrderBy Row) (now : Time) (db : Database)
    (ledger : Ledger Id Time) : Prop :=
  (∀ entry ∈ ledger, ∃ operation, db.get texts now (texts.uuid entry.operationId) = .ok operation ∧
    operation.entry = entry) ∧
  ∃ operations, db.getQueued texts order now = .ok operations ∧
    ledger.Lists (operations.map Operation.entry)

end Returns

/-! ## Sequences of calls -/

/-- The calls that write to the tables. A product is registered before operations refer to it. -/
inductive Call (Id Value Time : Type)
  | register (productCode : String)
  | insert (operation : Operation Id Value Time) (now : Time)
  | update (operation : Operation Id Value Time) (now : Time)

def Call.exec (texts : Texts Id Value Time) (order : OrderBy Row) (db : Database) :
    Call Id Value Time → Except AgentError Database
  | .register productCode => .ok { db with products := db.products ++ [productCode] }
  | .insert operation now => db.insert texts order now operation
  | .update operation now => db.update texts now operation

variable [DecidableEq Id]

/-- What an accepted call asks for. An operation is created at the time of its insertion. -/
def Call.record (ledger : Ledger Id Time) : Call Id Value Time → Ledger Id Time
  | .register _ => ledger
  | .insert operation now => ledger ++ [{ operation.entry with createdAt := now }]
  | .update operation _ => ledger.set operation.operationId operation.state operation.priority

/-- The tables and the entries that they should hold after one more call. -/
def Call.run (texts : Texts Id Value Time) (order : OrderBy Row) (state : Database × Ledger Id Time)
    (call : Call Id Value Time) : Database × Ledger Id Time :=
  match call.exec texts order state.1 with
  | .ok db => (db, call.record state.2)
  | .error _ => state

def runCalls (texts : Texts Id Value Time) (order : OrderBy Row)
    (calls : List (Call Id Value Time)) : Database × Ledger Id Time :=
  calls.foldl (Call.run texts order) (⟨[], []⟩, [])

theorem Ledger.map_operationId_set (ledger : Ledger Id Time) (id : Id) (state : OperationState)
    (priority : Priority) :
    (ledger.set id state priority).map Entry.operationId = ledger.map Entry.operationId := by
  rw [Ledger.set, map_map]
  refine map_congr_left fun entry _ => ?_
  simp only [Function.comp_apply]
  split <;> rfl

section Calls

variable [LinearOrder Time] {texts : Texts Id Value Time} {order : OrderBy Row} {db db' : Database}
  {ledger : Ledger Id Time} {operation : Operation Id Value Time} {now : Time}

omit [DecidableEq Id] in
theorem exists_row_of_insert (hTexts : texts.Faithful)
    (h : db.insert texts order now operation = .ok db') :
    ∃ row, row.Represents texts { operation.entry with createdAt := now } ∧
      row.operationId ∉ db.operations.map Row.operationId ∧
      db' = { db with operations := db.operations ++ [row] } := by
  obtain ⟨active, -, h⟩ := bind_eq_ok.mp h
  cases active with
  | some active => cases h
  | none =>
    obtain ⟨parameters, hParameters, h⟩ := bind_eq_ok.mp h
    obtain ⟨progress, hProgress, h⟩ := bind_eq_ok.mp h
    obtain ⟨error, hError, h⟩ := bind_eq_ok.mp h
    rw [Database.insertRow] at h
    split at h
    · cases h
    · next hAccepted =>
      obtain ⟨hNew, -⟩ := not_or.mp hAccepted
      refine ⟨_, ?_, hNew, (Except.ok.inj h).symm⟩
      exact
        { operationId := rfl, productCode := rfl, operationType := rfl, state := rfl
          priority := rfl, createdAt := rfl
          parameters := readable_of_jsonText hTexts hParameters
          metadata := readable_display hTexts operation.metadata
          progress := readable_of_jsonText hTexts hProgress
          error := readable_of_jsonText hTexts hError }

theorem rows_update (hTexts : texts.Faithful) (hUpdate : db.update texts now operation = .ok db')
    (hRows : Forall₂ (Row.Represents texts) db.operations ledger) :
    Forall₂ (Row.Represents texts) db'.operations
      (ledger.set operation.operationId operation.state operation.priority) := by
  obtain ⟨progress, hProgress, hUpdate⟩ := bind_eq_ok.mp hUpdate
  obtain ⟨error, hError, hUpdate⟩ := bind_eq_ok.mp hUpdate
  cases hUpdate
  refine forall₂_map_left_iff.mpr (forall₂_map_right_iff.mpr (hRows.imp ?_))
  intro row entry h
  by_cases hId : entry.operationId = operation.operationId
  · rw [if_pos (by rw [h.operationId, hId]), if_pos hId]
    exact
      { h with
        state := rfl, priority := rfl
        metadata := readable_display hTexts operation.metadata
        progress := readable_of_jsonText hTexts hProgress
        error := readable_of_jsonText hTexts hError }
  · rw [if_neg (fun hEq => hId (uuid_inj hTexts (h.operationId ▸ hEq))), if_neg hId]
    exact h

theorem Database.Holds.exec (hTexts : texts.Faithful) (h : db.Holds texts ledger)
    {call : Call Id Value Time} (hExec : call.exec texts order db = .ok db') :
    db'.Holds texts (call.record ledger) := by
  cases call with
  | register productCode =>
    cases hExec
    exact ⟨h.rows, h.nodup⟩
  | insert operation now =>
    obtain ⟨row, hRow, hNew, rfl⟩ := exists_row_of_insert hTexts hExec
    refine ⟨rel_append h.rows (.cons hRow .nil), ?_⟩
    rw [Call.record, map_append, map_singleton]
    refine Nodup.append h.nodup (nodup_singleton _) ?_
    rw [disjoint_singleton]
    intro hMem
    obtain ⟨entry, hEntry, hId⟩ := mem_map.mp hMem
    obtain ⟨row', hRow', hRep⟩ := forall₂_mem_right h.rows hEntry
    refine hNew (mem_map.mpr ⟨row', hRow', ?_⟩)
    rw [hRep.operationId, hId, hRow.operationId]
  | update operation now =>
    refine ⟨rows_update hTexts hExec h.rows, ?_⟩
    rw [Call.record, Ledger.map_operationId_set]
    exact h.nodup

theorem holds_runCalls (hTexts : texts.Faithful) (order : OrderBy Row)
    (calls : List (Call Id Value Time)) :
    (runCalls texts order calls).1.Holds texts (runCalls texts order calls).2 := by
  refine foldlRecOn calls _ (motive := fun state : Database × Ledger Id Time =>
    state.1.Holds texts state.2) ⟨.nil, nodup_nil⟩ fun state h call _ => ?_
  rw [Call.run]
  split
  · next db' hExec => exact h.exec hTexts hExec
  · exact h

end Calls

/-- Texts of two identifiers, with one JSON value and one time. -/
def sampleTexts : Texts Bool Unit Unit where
  uuid id := if id then "1" else "0"
  parseUuid s := if s = "1" then .ok true else if s = "0" then .ok false else .error s
  display _ := "null"
  toJson _ := .ok "null"
  fromJson s := if s = "null" then .ok () else .error s
  rfc3339 _ := "2024-01-01T00:00:00+00:00"
  parseRfc3339 _ := some ()

theorem sampleTexts_faithful : sampleTexts.Faithful where
  parseUuid_uuid id := by cases id <;> rfl
  display_readable _ := ⟨(), rfl⟩
  toJson_readable _ s h := by
    cases h
    exact ⟨(), rfl⟩
  parseRfc3339_rfc3339 _ := rfl
  le_of_rfc3339_le _ _ _ := le_refl _

def sampleOperation (operationId : Bool) (productCode : String) (operationType : OperationType) :
    Operation Bool Unit Unit where
  operationId
  productCode
  operationType
  state := .queued
  priority := .normal
  parameters := none
  metadata := none
  progress := none
  error := none
  createdAt := ()
  updatedAt := ()
  startedAt := none
  completedAt := none

/-- Two products are registered and an operation is inserted for each of them. -/
def sampleCalls (first second : OperationType) : List (Call Bool Unit Unit) :=
  [.register "wow", .register "wow_classic", .insert (sampleOperation false "wow" first) (),
    .insert (sampleOperation true "wow_classic" second) ()]

end Cascette.Agent
