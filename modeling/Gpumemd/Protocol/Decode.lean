import Gpumemd.Library.Fields
import Gpumemd.Protocol.Responses

/-!
# Reading the listings back

Nothing in a listing is escaped. A row is cut at its blanks, and this gives its fields back as long
as no field but the path of a model, which comes last, has blanks in it (`decode_format*`). So a
decoder needs nothing but the text, and two snapshots with one text show the same.
-/

namespace Gpumemd

open Library

/-- What a row of `format_residency` shows of a record. -/
structure Resident where
  id : Str
  footprintBytes : Bytes
  refCount : ℕ
  lastLoaded : ℕ
  deriving DecidableEq

/-- What the listing shows of the records. -/
def residents (snapshot : List ResidencyRecord) : List Resident :=
  (snapshot.filter (·.resident)).map fun record =>
    ⟨record.id, record.footprintBytes, record.refCount, record.lastLoaded⟩

namespace Protocol

/-! ## The decoders -/

/-- A row of fields. -/
def row (fields : List Str) : Str := [' '.toUInt8].intercalate fields

/-- The bytes that a field stands for. -/
def decodeBytes (field : Str) : Bytes := UInt64.ofNat (value field)

/-- The first row of a listing and the rows after it, without the terminator and what follows its
    newline. -/
def decodeListing (text : Str) : Option (Str × List Str) :=
  match text.splitOn '\n'.toUInt8 with
  | header :: rows => some (header, rows.dropLast.dropLast)
  | [] => none

/-- Reads a row of `format_status`. -/
def decodeReservation (row : Str) : Option Reservation :=
  match fields ' '.toUInt8 2 row with
  | [_, name, bytes] => some ⟨name, decodeBytes bytes⟩
  | _ => none

/-- Reads the text of `format_status`. -/
def decodeStatus (text : Str) : Option StatusSnapshot := do
  let (header, rows) ← decodeListing text
  match fields ' '.toUInt8 5 header with
  | [_, _, capacity, used, free, _] =>
    let reservations ← rows.mapM decodeReservation
    return { capacity := decodeBytes capacity, used := decodeBytes used, free := decodeBytes free,
             reservations }
  | _ => none

/-- Reads a row of `format_nodes`. -/
def decodeNode (row : Str) : Option NodeRecord :=
  match fields ' '.toUInt8 5 row with
  | [_, id, endpoint, capacity, used, health] => some
      { id, endpoint, capacity := decodeBytes capacity, used := decodeBytes used,
        healthy := health = ascii "healthy" }
  | _ => none

/-- Reads the text of `format_nodes`. -/
def decodeNodes (text : Str) : Option (List NodeRecord) := do
  let (_, rows) ← decodeListing text
  rows.mapM decodeNode

/-- Reads a row of `format_models`, whose last field is optional. -/
def decodeModel (row : Str) : Option ModelRecord :=
  match fields ' '.toUInt8 6 row with
  | _ :: id :: metadata :: footprint :: refCount :: lastAccess :: path => some
      { id, metadata, footprintBytes := decodeBytes footprint, refCount := value refCount,
        lastAccess := value lastAccess, sourcePath := path.headD [] }
  | _ => none

/-- Reads the text of `format_models`. -/
def decodeModels (text : Str) : Option (List ModelRecord) := do
  let (_, rows) ← decodeListing text
  rows.mapM decodeModel

/-- Reads a row of `format_residency`. -/
def decodeResident (row : Str) : Option Resident :=
  match fields ' '.toUInt8 4 row with
  | [_, id, footprint, refCount, lastLoaded] =>
    some ⟨id, decodeBytes footprint, value refCount, value lastLoaded⟩
  | _ => none

/-- Reads the text of `format_residency`. -/
def decodeResidency (text : Str) : Option (List Resident) := do
  let (_, rows) ← decodeListing text
  rows.mapM decodeResident

/-! ## Rows -/

theorem Plain.blank {token : Str} (h : Plain token) : ' '.toUInt8 ∉ token := h.notMem (by decide)

theorem decodeBytes_numeral (bytes : Bytes) : decodeBytes (numeral bytes.toNat) = bytes := by
  rw [decodeBytes, value_numeral, UInt64.ofNat_toNat]

/-- A row of plain fields. -/
theorem fields_row {n : ℕ} {l : List Str} (hl : ∀ field ∈ l, Plain field) (hne : l ≠ [])
    (hlength : l.length ≤ n + 1) : fields ' '.toUInt8 n (row l) = l := by
  obtain ⟨before, last, rfl⟩ := (List.eq_nil_or_concat' l).resolve_left hne
  rw [List.length_append, List.length_singleton] at hlength
  exact fields_intercalate (fun field hfield => (hl field (by simp [hfield])).blank) (by omega)
    fun _ => (hl last (by simp)).blank

/-- A row of plain fields and one with anything in it. -/
theorem fields_row_append {n : ℕ} {l : List Str} {last : Str} (hl : ∀ field ∈ l, Plain field)
    (hlength : l.length = n) : fields ' '.toUInt8 n (row (l ++ [last])) = l ++ [last] :=
  fields_intercalate (fun field hfield => (hl field hfield).blank) hlength.le
    fun hlt => absurd hlength hlt.ne

theorem blank_eq : ascii " " = [' '.toUInt8] := by decide

theorem decode_statusRow {reservation : Reservation} (hname : Plain reservation.name) :
    decodeReservation (statusRow reservation) = some reservation := by
  have hverb : ascii "CLIENT " = ascii "CLIENT" ++ [' '.toUInt8] := by decide
  have hrow : statusRow reservation =
      row [ascii "CLIENT", reservation.name, numeral reservation.bytes.toNat] := by
    simp [statusRow, row, hverb, blank_eq, List.intercalate_cons_cons]
  have hplain : ∀ field ∈ [ascii "CLIENT", reservation.name, numeral reservation.bytes.toNat],
      Plain field := by
    simp only [List.forall_mem_cons]
    exact ⟨by decide, hname, plain_numeral _, List.forall_mem_nil _⟩
  rw [decodeReservation, hrow, fields_row hplain (by simp) (by simp)]
  simp only [decodeBytes_numeral]

theorem decode_nodeRow {node : NodeRecord} (hid : Plain node.id) (hendpoint : Plain node.endpoint) :
    decodeNode (nodeRow node) = some node := by
  have hverb : ascii "NODE " = ascii "NODE" ++ [' '.toUInt8] := by decide
  have hrow : nodeRow node = row [ascii "NODE", node.id, node.endpoint, numeral node.capacity.toNat,
      numeral node.used.toNat, if node.healthy then ascii "healthy" else ascii "unhealthy"] := by
    simp [nodeRow, row, hverb, blank_eq, List.intercalate_cons_cons]
  have hplain : ∀ field ∈ [ascii "NODE", node.id, node.endpoint, numeral node.capacity.toNat,
      numeral node.used.toNat, if node.healthy then ascii "healthy" else ascii "unhealthy"],
      Plain field := by
    simp only [List.forall_mem_cons]
    refine ⟨by decide, hid, hendpoint, plain_numeral _, plain_numeral _, ?_, List.forall_mem_nil _⟩
    split_ifs <;> decide
  rw [decodeNode, hrow, fields_row hplain (by simp) (by simp)]
  obtain ⟨id, endpoint, capacity, used, healthy⟩ := node
  have hhealth : decide ((if healthy then ascii "healthy" else ascii "unhealthy") =
      ascii "healthy") = healthy := by cases healthy <;> decide
  simp only [decodeBytes_numeral, hhealth]

theorem decode_modelRow {model : ModelRecord} (hid : Plain model.id) (hmetadata : Plain model.metadata) :
    decodeModel (modelRow model) = some model := by
  have hverb : ascii "MODEL " = ascii "MODEL" ++ [' '.toUInt8] := by decide
  have hplain : ∀ field ∈ [ascii "MODEL", model.id, model.metadata,
      numeral model.footprintBytes.toNat, numeral model.refCount, numeral model.lastAccess],
      Plain field := by
    simp only [List.forall_mem_cons]
    exact ⟨by decide, hid, hmetadata, plain_numeral _, plain_numeral _, plain_numeral _,
      List.forall_mem_nil _⟩
  obtain ⟨id, metadata, footprint, refCount, lastAccess, path⟩ := model
  cases path with
  | nil =>
    have hrow : modelRow ⟨id, metadata, footprint, refCount, lastAccess, []⟩ =
        row [ascii "MODEL", id, metadata, numeral footprint.toNat, numeral refCount,
          numeral lastAccess] := by
      simp [modelRow, row, hverb, blank_eq, List.intercalate_cons_cons]
    rw [decodeModel, hrow, fields_row hplain (by simp) (by simp)]
    simp [decodeBytes_numeral, value_numeral]
  | cons c path =>
    -- the path is all that follows the last field
    have hrow : modelRow ⟨id, metadata, footprint, refCount, lastAccess, c :: path⟩ =
        row ([ascii "MODEL", id, metadata, numeral footprint.toNat, numeral refCount,
          numeral lastAccess] ++ [c :: path]) := by
      simp [modelRow, row, hverb, blank_eq, List.intercalate_cons_cons]
    rw [decodeModel, hrow, fields_row_append hplain (by simp)]
    simp [decodeBytes_numeral, value_numeral]

theorem decode_residencyRow {record : ResidencyRecord} (hid : Plain record.id) :
    decodeResident (residencyRow record) =
      some ⟨record.id, record.footprintBytes, record.refCount, record.lastLoaded⟩ := by
  have hverb : ascii "RESIDENT " = ascii "RESIDENT" ++ [' '.toUInt8] := by decide
  have hrow : residencyRow record = row [ascii "RESIDENT", record.id,
      numeral record.footprintBytes.toNat, numeral record.refCount, numeral record.lastLoaded] := by
    simp [residencyRow, row, hverb, blank_eq, List.intercalate_cons_cons]
  have hplain : ∀ field ∈ [ascii "RESIDENT", record.id, numeral record.footprintBytes.toNat,
      numeral record.refCount, numeral record.lastLoaded], Plain field := by
    simp only [List.forall_mem_cons]
    exact ⟨by decide, hid, plain_numeral _, plain_numeral _, plain_numeral _, List.forall_mem_nil _⟩
  rw [decodeResident, hrow, fields_row hplain (by simp) (by simp)]
  simp only [decodeBytes_numeral, value_numeral]

/-! ## Listings -/

theorem decodeListing_unlines {header : Str} {rows : List Str}
    (hrows : ∀ row ∈ header :: rows, '\n'.toUInt8 ∉ row) :
    decodeListing (unlines '\n'.toUInt8 (header :: rows ++ [terminator])) = some (header, rows) := by
  have hlines : ∀ line ∈ header :: rows ++ [terminator], '\n'.toUInt8 ∉ line := by
    intro line hline
    rcases List.mem_append.1 hline with hline | hline
    · exact hrows line hline
    · rw [List.mem_singleton.1 hline]
      decide
  rw [decodeListing, splitOn_unlines hlines]
  simp

theorem decode_formatStatus {snapshot : StatusSnapshot}
    (hnames : ∀ reservation ∈ snapshot.reservations, Plain reservation.name) :
    decodeStatus (formatStatus snapshot) = some snapshot := by
  have hrows := notMem_statusRows fun reservation h => (hnames reservation h).newline
  have hverb : ascii "status " = ascii "status" ++ [' '.toUInt8] := by decide
  have hok : ascii "OK " = ascii "OK" ++ [' '.toUInt8] := by decide
  have hheader : statusHeader snapshot = row [ascii "OK", ascii "status",
      numeral snapshot.capacity.toNat, numeral snapshot.used.toNat, numeral snapshot.free.toNat,
      numeral snapshot.reservations.length] := by
    simp [statusHeader, row, hverb, hok, blank_eq, List.intercalate_cons_cons]
  have hplain : ∀ field ∈ [ascii "OK", ascii "status", numeral snapshot.capacity.toNat,
      numeral snapshot.used.toNat, numeral snapshot.free.toNat,
      numeral snapshot.reservations.length], Plain field := by
    simp only [List.forall_mem_cons]
    exact ⟨by decide, by decide, plain_numeral _, plain_numeral _, plain_numeral _, plain_numeral _,
      List.forall_mem_nil _⟩
  have hreservations : (snapshot.reservations.map statusRow).mapM decodeReservation =
      some (snapshot.reservations.map id) :=
    mapM_map fun reservation h => decode_statusRow (hnames reservation h)
  rw [decodeStatus, formatStatus_eq, decodeListing_unlines hrows]
  simp [hheader, fields_row hplain, hreservations, decodeBytes_numeral]

theorem decode_formatNodes {snapshot : List NodeRecord}
    (hnodes : ∀ node ∈ snapshot, Plain node.id ∧ Plain node.endpoint) :
    decodeNodes (formatNodes snapshot) = some snapshot := by
  have hrows := notMem_nodeRows fun node h => ⟨(hnodes node h).1.newline, (hnodes node h).2.newline⟩
  have hdecode : (snapshot.map nodeRow).mapM decodeNode = some (snapshot.map id) :=
    mapM_map fun node h => decode_nodeRow (hnodes node h).1 (hnodes node h).2
  rw [decodeNodes, formatNodes_eq, decodeListing_unlines hrows]
  simp [hdecode]

theorem decode_formatModels {snapshot : List ModelRecord}
    (hmodels : ∀ model ∈ snapshot, Plain model.id ∧ Plain model.metadata ∧
      '\n'.toUInt8 ∉ model.sourcePath) : decodeModels (formatModels snapshot) = some snapshot := by
  have hrows := notMem_modelRows fun model h =>
    ⟨(hmodels model h).1.newline, (hmodels model h).2.1.newline, (hmodels model h).2.2⟩
  have hdecode : (snapshot.map modelRow).mapM decodeModel = some (snapshot.map id) :=
    mapM_map fun model h => decode_modelRow (hmodels model h).1 (hmodels model h).2.1
  rw [decodeModels, formatModels_eq, decodeListing_unlines hrows]
  simp [hdecode]

theorem decode_formatResidency {snapshot : List ResidencyRecord}
    (hrecords : ∀ record ∈ snapshot, Plain record.id) :
    decodeResidency (formatResidency snapshot) = some (residents snapshot) := by
  have hrows := notMem_residencyRows fun record h => (hrecords record h).newline
  have hdecode : ((snapshot.filter (·.resident)).map residencyRow).mapM decodeResident =
      some (residents snapshot) :=
    mapM_map fun record h => decode_residencyRow (hrecords record (List.mem_of_mem_filter h))
  rw [decodeResidency, formatResidency_eq, decodeListing_unlines hrows]
  exact hdecode

end Protocol

end Gpumemd
