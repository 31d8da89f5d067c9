import Gpumemd.Library.Framing
import Gpumemd.Protocol.Format
import Gpumemd.Protocol.Grammar

/-!
# The shape of the responses

A response is one line, or a listing, whose rows are lines and whose last line is `END`
(`Framed`). So it is with whatever the clients have chosen for names, paths and endpoints,
since none of it has newlines (`framed_*`). A row that ends with `END` would look like the
end of the listing; only the path of a model can make one.
-/

namespace Gpumemd

open Library

namespace Protocol

variable {type : CommandType} {text action name row : Str}

/-- The text has one newline, at its end. -/
def IsLine (text : Str) : Prop :=
  text.getLast? = some '\n'.toUInt8 ∧ '\n'.toUInt8 ∉ text.dropLast

instance : Decidable (IsLine text) := inferInstanceAs (Decidable (_ ∧ _))

/-- The last line of a listing. -/
def terminator : Str := ascii "END"

/-- The response to a command of the type: an error, a line, or a listing, of which no row
    ends with the terminator but perhaps one of a model. -/
inductive Framed (type : CommandType) : Str → Prop
  | error {text : Str} : IsLine text → ascii "ERR " <+: text → Framed type text
  | line {text : Str} : type.isListing = false → IsLine text → ascii "OK " <+: text →
      Framed type text
  | listing {header : Str} {rows : List Str} : type.isListing = true →
      (∀ row ∈ (ascii "OK " ++ header) :: rows, '\n'.toUInt8 ∉ row) →
      (type ≠ .models → ∀ row ∈ (ascii "OK " ++ header) :: rows, ¬ terminator <:+ row) →
      Framed type (unlines '\n'.toUInt8 ((ascii "OK " ++ header) :: rows ++ [terminator]))

/-! ## Lines -/

theorem isLine_append (h : '\n'.toUInt8 ∉ text) : IsLine (text ++ ascii "\n") := by
  have hnewline : ascii "\n" = ['\n'.toUInt8] := by decide
  rw [IsLine, hnewline, List.getLast?_concat, List.dropLast_concat]
  exact ⟨rfl, h⟩

theorem eq_append_of_isLine (h : IsLine text) :
    ∃ front, text = front ++ ['\n'.toUInt8] ∧ '\n'.toUInt8 ∉ front := by
  obtain ⟨front, rfl⟩ := List.getLast?_eq_some_iff.1 h.1
  refine ⟨front, rfl, ?_⟩
  have hfront := h.2
  rwa [List.dropLast_concat] at hfront

theorem notMem_append (h : '\n'.toUInt8 ∉ text) (hrow : '\n'.toUInt8 ∉ row) :
    '\n'.toUInt8 ∉ text ++ row := by
  rw [List.mem_append]
  rintro (hmem | hmem)
  · exact h hmem
  · exact hrow hmem

theorem Plain.newline (h : Plain text) : '\n'.toUInt8 ∉ text := h.notMem (by decide)

theorem plain_numeral (n : ℕ) : Plain (numeral n) :=
  plain_of_isDigit fun _ hc => isDigit_of_mem_numeral hc

/-- A field after the others. -/
theorem notMem_field (h : '\n'.toUInt8 ∉ text) (hrow : '\n'.toUInt8 ∉ row) :
    '\n'.toUInt8 ∉ text ++ ascii " " ++ row :=
  notMem_append (notMem_append h (by decide)) hrow

theorem notMem_numeral (h : '\n'.toUInt8 ∉ text) (n : ℕ) :
    '\n'.toUInt8 ∉ text ++ ascii " " ++ numeral n := notMem_field h (plain_numeral n).newline

/-- The line of an operation that has succeeded. -/
theorem framed_formatSuccess (htype : type.isListing = false) (haction : Plain action)
    (hname : Plain name) (amount : ℕ) : Framed type (formatSuccess action name amount) := by
  refine .line htype (isLine_append ?_) ?_
  · exact notMem_numeral (notMem_field (notMem_append (by decide) haction.newline) hname.newline) _
  · simp only [formatSuccess, List.append_assoc]
    exact List.prefix_append _ _

theorem framed_formatOperationResult (htype : type.isListing = false) (haction : Plain action)
    (hname : Plain name) (result : OperationResult) :
    Framed type (formatOperationResult action name result) := by
  rw [formatOperationResult]
  split_ifs
  · exact framed_formatSuccess htype haction hname _
  · split <;>
      exact .error (by rw [ascii_ofList]; decide) (by rw [ascii_ofList, ascii_ofList]; decide)

theorem framed_formatModelOperationResult (htype : type.isListing = false) (haction : Plain action)
    (hname : Plain name) (result : ModelOperationResult) :
    Framed type (formatModelOperationResult action name result) := by
  rw [formatModelOperationResult]
  split_ifs
  · exact framed_formatSuccess htype haction hname _
  · split <;>
      exact .error (by rw [ascii_ofList]; decide) (by rw [ascii_ofList, ascii_ofList]; decide)

theorem framed_formatNodeOperationResult (htype : type.isListing = false) (haction : Plain action)
    (hname : Plain name) (result : NodeOperationResult) :
    Framed type (formatNodeOperationResult action name result) := by
  have hfields := notMem_field (notMem_append (by decide : '\n'.toUInt8 ∉ ascii "OK ")
    haction.newline) hname.newline
  rw [formatNodeOperationResult]
  split_ifs
  · refine .line htype (isLine_append ?_) (by simp)
    exact notMem_append hfields (notMem_append (by decide) (plain_numeral _).newline)
  · refine .line htype (isLine_append ?_) (by simp)
    exact notMem_append hfields List.not_mem_nil
  · split <;>
      exact .error (by rw [ascii_ofList]; decide) (by rw [ascii_ofList, ascii_ofList]; decide)

theorem framed_formatShareResult (htype : type.isListing = false) (hname : Plain name)
    {result : ModelShareResult} (htoken : Plain result.token) :
    Framed type (formatShareResult name result) := by
  rw [formatShareResult]
  split_ifs
  · refine .line htype (isLine_append ?_) ?_
    · exact notMem_field (notMem_numeral (notMem_append (by decide) hname.newline) _) htoken.newline
    · simp only [List.append_assoc]
      exact (by decide : ascii "OK " <+: ascii "OK shared ").trans (List.prefix_append _ _)
  · split <;>
      exact .error (by rw [ascii_ofList]; decide) (by rw [ascii_ofList, ascii_ofList]; decide)

/-- The digits of a token are plain. -/
theorem plain_hexToken (handle : Str) : Plain (hexToken handle) := by
  have hdigits : ∀ n : Fin 16, 32 < (ascii "0123456789abcdef").getD n 0 := by decide
  intro c hc
  obtain ⟨byte, -, hc⟩ := List.mem_flatMap.1 hc
  simp only [List.mem_cons, List.not_mem_nil, or_false] at hc
  have hbyte := byte.toNat_lt
  rcases hc with rfl | rfl
  · have hhigh : (byte >>> 4).toNat < 16 := by
      show byte.toNat >>> 4 < 16
      rw [Nat.shiftRight_eq_div_pow]
      omega
    exact hdigits ⟨_, hhigh⟩
  · have hlow : (byte &&& 0x0f).toNat < 16 :=
      Nat.and_lt_two_pow (n := 4) byte.toNat (by decide)
    exact hdigits ⟨_, hlow⟩

/-! ## Listings -/

theorem unlines_listing (header : Str) (rows : List Str) :
    unlines '\n'.toUInt8 (header :: rows ++ [terminator]) =
      header ++ ascii "\n" ++ rows.flatMap (· ++ ascii "\n") ++ ascii "END\n" := by
  have hnewline : ascii "\n" = ['\n'.toUInt8] := by decide
  have hend : ascii "END\n" = terminator ++ ['\n'.toUInt8] := by decide
  rw [List.cons_append, unlines_cons, unlines_append, hnewline, hend]
  simp [unlines]

/-- What ends with the terminator ends with its last letter. -/
theorem getLast?_of_terminator (h : terminator <:+ row) : row.getLast? = some 'D'.toUInt8 := by
  obtain ⟨front, rfl⟩ := h
  rw [List.getLast?_append_of_ne_nil _ (by decide)]
  decide

theorem not_terminator_append (h : row.getLast? ≠ some 'D'.toUInt8) (hne : row ≠ []) :
    ¬ terminator <:+ text ++ row := fun hend => by
  have hlast := getLast?_of_terminator hend
  rw [List.getLast?_append_of_ne_nil _ hne] at hlast
  exact h hlast

/-- A row that ends with a numeral does not end with the terminator. -/
theorem not_terminator_numeral (n : ℕ) : ¬ terminator <:+ text ++ numeral n := by
  refine not_terminator_append (fun hlast => ?_) (numeral_ne_nil n)
  exact absurd (isDigit_of_mem_numeral (List.mem_of_getLast? hlast)) (by decide)

/-- A row of `format_status`. -/
def statusRow (reservation : Reservation) : Str :=
  ascii "CLIENT " ++ reservation.name ++ ascii " " ++ numeral reservation.bytes.toNat

/-- The first row of `format_status`. -/
def statusHeader (snapshot : StatusSnapshot) : Str :=
  ascii "OK " ++ (ascii "status " ++ numeral snapshot.capacity.toNat ++ ascii " " ++
    numeral snapshot.used.toNat ++ ascii " " ++ numeral snapshot.free.toNat ++ ascii " " ++
    numeral snapshot.reservations.length)

theorem formatStatus_eq (snapshot : StatusSnapshot) :
    formatStatus snapshot = unlines '\n'.toUInt8
      (statusHeader snapshot :: snapshot.reservations.map statusRow ++ [terminator]) := by
  have hverb : ascii "OK status " = ascii "OK " ++ ascii "status " := by decide
  rw [unlines_listing, formatStatus, hverb, List.flatMap_map, statusHeader]
  simp only [List.append_assoc, statusRow]

theorem notMem_statusRows {snapshot : StatusSnapshot}
    (hnames : ∀ reservation ∈ snapshot.reservations, '\n'.toUInt8 ∉ reservation.name) :
    ∀ row ∈ statusHeader snapshot :: snapshot.reservations.map statusRow, '\n'.toUInt8 ∉ row := by
  refine List.forall_mem_cons.2 ⟨notMem_append (by decide) ?_, List.forall_mem_map.2 ?_⟩
  · exact notMem_numeral (notMem_numeral (notMem_numeral (notMem_append (by decide)
      (plain_numeral _).newline) _) _) _
  · intro reservation hreservation
    exact notMem_numeral (notMem_append (by decide) (hnames _ hreservation)) _

theorem framed_formatStatus {snapshot : StatusSnapshot}
    (hnames : ∀ reservation ∈ snapshot.reservations, '\n'.toUInt8 ∉ reservation.name) :
    Framed .status (formatStatus snapshot) := by
  rw [formatStatus_eq]
  refine .listing rfl (notMem_statusRows hnames) fun _ =>
    List.forall_mem_cons.2 ⟨?_, List.forall_mem_map.2 fun _ _ => not_terminator_numeral _⟩
  rw [← List.append_assoc]
  exact not_terminator_numeral _

/-- A row of `format_nodes`. -/
def nodeRow (node : NodeRecord) : Str :=
  ascii "NODE " ++ node.id ++ ascii " " ++ node.endpoint ++ ascii " " ++
    numeral node.capacity.toNat ++ ascii " " ++ numeral node.used.toNat ++ ascii " " ++
    if node.healthy then ascii "healthy" else ascii "unhealthy"

/-- The first row of `format_nodes`. -/
def nodesHeader (snapshot : List NodeRecord) : Str :=
  ascii "OK " ++ (ascii "nodes " ++ numeral snapshot.length)

theorem formatNodes_eq (snapshot : List NodeRecord) :
    formatNodes snapshot =
      unlines '\n'.toUInt8 (nodesHeader snapshot :: snapshot.map nodeRow ++ [terminator]) := by
  have hverb : ascii "OK nodes " = ascii "OK " ++ ascii "nodes " := by decide
  rw [unlines_listing, formatNodes, hverb, List.flatMap_map, nodesHeader]
  simp only [List.append_assoc, nodeRow]

theorem notMem_nodeRows {snapshot : List NodeRecord}
    (hnodes : ∀ node ∈ snapshot, '\n'.toUInt8 ∉ node.id ∧ '\n'.toUInt8 ∉ node.endpoint) :
    ∀ row ∈ nodesHeader snapshot :: snapshot.map nodeRow, '\n'.toUInt8 ∉ row := by
  refine List.forall_mem_cons.2 ⟨?_, List.forall_mem_map.2 fun node hnode => ?_⟩
  · exact notMem_append (by decide) (notMem_append (by decide) (plain_numeral _).newline)
  · obtain ⟨hid, hendpoint⟩ := hnodes node hnode
    refine notMem_field (notMem_numeral (notMem_numeral (notMem_field (notMem_append (by decide) hid)
      hendpoint) _) _) ?_
    split_ifs <;> decide

theorem framed_formatNodes {snapshot : List NodeRecord}
    (hnodes : ∀ node ∈ snapshot, '\n'.toUInt8 ∉ node.id ∧ '\n'.toUInt8 ∉ node.endpoint) :
    Framed .nodes (formatNodes snapshot) := by
  rw [formatNodes_eq]
  refine .listing rfl (notMem_nodeRows hnodes) fun _ =>
    List.forall_mem_cons.2 ⟨?_, List.forall_mem_map.2 fun node _ => ?_⟩
  · rw [← List.append_assoc]
    exact not_terminator_numeral _
  · rw [nodeRow]
    split_ifs <;> exact not_terminator_append (by decide) (by decide)

/-- A row of `format_models`. -/
def modelRow (model : ModelRecord) : Str :=
  ascii "MODEL " ++ model.id ++ ascii " " ++ model.metadata ++ ascii " " ++
    numeral model.footprintBytes.toNat ++ ascii " " ++ numeral model.refCount ++ ascii " " ++
    numeral model.lastAccess ++
    if !model.sourcePath.isEmpty then ascii " " ++ model.sourcePath else []

/-- The first row of `format_models`. -/
def modelsHeader (snapshot : List ModelRecord) : Str :=
  ascii "OK " ++ (ascii "models " ++ numeral snapshot.length)

theorem formatModels_eq (snapshot : List ModelRecord) :
    formatModels snapshot =
      unlines '\n'.toUInt8 (modelsHeader snapshot :: snapshot.map modelRow ++ [terminator]) := by
  have hverb : ascii "OK models " = ascii "OK " ++ ascii "models " := by decide
  rw [unlines_listing, formatModels, hverb, List.flatMap_map, modelsHeader]
  simp only [List.append_assoc, modelRow]

theorem notMem_modelRow {model : ModelRecord} (hid : '\n'.toUInt8 ∉ model.id)
    (hmetadata : '\n'.toUInt8 ∉ model.metadata) (hpath : '\n'.toUInt8 ∉ model.sourcePath) :
    '\n'.toUInt8 ∉ modelRow model := by
  refine notMem_append (notMem_numeral (notMem_numeral (notMem_numeral (notMem_field
    (notMem_append (by decide) hid) hmetadata) _) _) _) ?_
  split_ifs
  · exact notMem_append (by decide) hpath
  · exact List.not_mem_nil

theorem notMem_modelRows {snapshot : List ModelRecord}
    (hmodels : ∀ model ∈ snapshot, '\n'.toUInt8 ∉ model.id ∧ '\n'.toUInt8 ∉ model.metadata ∧
      '\n'.toUInt8 ∉ model.sourcePath) :
    ∀ row ∈ modelsHeader snapshot :: snapshot.map modelRow, '\n'.toUInt8 ∉ row := by
  refine List.forall_mem_cons.2 ⟨?_, List.forall_mem_map.2 fun model hmodel => ?_⟩
  · exact notMem_append (by decide) (notMem_append (by decide) (plain_numeral _).newline)
  · obtain ⟨hid, hmetadata, hpath⟩ := hmodels model hmodel
    exact notMem_modelRow hid hmetadata hpath

theorem framed_formatModels {snapshot : List ModelRecord}
    (hmodels : ∀ model ∈ snapshot, '\n'.toUInt8 ∉ model.id ∧ '\n'.toUInt8 ∉ model.metadata ∧
      '\n'.toUInt8 ∉ model.sourcePath) : Framed .models (formatModels snapshot) := by
  rw [formatModels_eq]
  exact .listing rfl (notMem_modelRows hmodels) fun hne => absurd rfl hne

/-- A row of `format_residency`. -/
def residencyRow (record : ResidencyRecord) : Str :=
  ascii "RESIDENT " ++ record.id ++ ascii " " ++ numeral record.footprintBytes.toNat ++
    ascii " " ++ numeral record.refCount ++ ascii " " ++ numeral record.lastLoaded

/-- Only what is resident has a row. -/
theorem flatMap_residencyRow (snapshot : List ResidencyRecord) :
    (snapshot.flatMap fun record =>
        if !record.resident then [] else residencyRow record ++ ascii "\n") =
      (snapshot.filter (·.resident)).flatMap fun record => residencyRow record ++ ascii "\n" := by
  induction snapshot with
  | nil => rfl
  | cons record snapshot ih =>
    rw [List.flatMap_cons, ih, List.filter_cons]
    cases record.resident <;> rfl

/-- The first row of `format_residency`. -/
def residencyHeader (snapshot : List ResidencyRecord) : Str :=
  ascii "OK " ++ (ascii "residency " ++ numeral (snapshot.countP (·.resident)))

theorem formatResidency_eq (snapshot : List ResidencyRecord) :
    formatResidency snapshot = unlines '\n'.toUInt8
      (residencyHeader snapshot :: (snapshot.filter (·.resident)).map residencyRow ++
        [terminator]) := by
  have hverb : ascii "OK residency " = ascii "OK " ++ ascii "residency " := by decide
  rw [unlines_listing, formatResidency, hverb, List.flatMap_map, residencyHeader,
    ← flatMap_residencyRow]
  simp only [List.append_assoc, residencyRow]

theorem notMem_residencyRows {snapshot : List ResidencyRecord}
    (hrecords : ∀ record ∈ snapshot, '\n'.toUInt8 ∉ record.id) :
    ∀ row ∈ residencyHeader snapshot :: (snapshot.filter (·.resident)).map residencyRow,
      '\n'.toUInt8 ∉ row := by
  refine List.forall_mem_cons.2 ⟨?_, List.forall_mem_map.2 fun record hrecord => ?_⟩
  · exact notMem_append (by decide) (notMem_append (by decide) (plain_numeral _).newline)
  · have hid := hrecords record (List.mem_of_mem_filter hrecord)
    exact notMem_numeral (notMem_numeral (notMem_numeral (notMem_append (by decide) hid) _) _) _

theorem framed_formatResidency {snapshot : List ResidencyRecord}
    (hrecords : ∀ record ∈ snapshot, '\n'.toUInt8 ∉ record.id) :
    Framed .residency (formatResidency snapshot) := by
  rw [formatResidency_eq]
  refine .listing rfl (notMem_residencyRows hrecords) fun _ =>
    List.forall_mem_cons.2 ⟨?_, List.forall_mem_map.2 fun _ _ => not_terminator_numeral _⟩
  rw [← List.append_assoc]
  exact not_terminator_numeral _

/-- The counters of `format_metrics`, with their names. -/
def metricsFields (snapshot : Metrics) : List (Str × ℕ) :=
  [(ascii "requests ", snapshot.requests.toNat), (ascii "successes ", snapshot.successes.toNat),
    (ascii "failures ", snapshot.failures.toNat), (ascii "acquires ", snapshot.acquires.toNat),
    (ascii "releases ", snapshot.releases.toNat),
    (ascii "model_loads ", snapshot.modelLoads.toNat),
    (ascii "model_unloads ", snapshot.modelUnloads.toNat),
    (ascii "acquired_bytes ", snapshot.acquiredBytes.toNat),
    (ascii "released_bytes ", snapshot.releasedBytes.toNat)]

/-- A row of `format_metrics`. -/
def metricsRow (field : Str × ℕ) : Str := field.1 ++ numeral field.2

theorem formatMetrics_eq (snapshot : Metrics) :
    formatMetrics snapshot = unlines '\n'.toUInt8
      ((ascii "OK " ++ ascii "metrics") :: (metricsFields snapshot).map metricsRow ++
        [terminator]) := by
  have hverb : ascii "OK metrics\n" = ascii "OK " ++ ascii "metrics" ++ ascii "\n" := by decide
  rw [unlines_listing]
  unfold formatMetrics
  simp only [hverb, metricsFields, metricsRow, List.flatMap_map, List.flatMap_cons,
    List.flatMap_nil, List.append_assoc, List.nil_append]

theorem framed_formatMetrics (snapshot : Metrics) : Framed .metrics (formatMetrics snapshot) := by
  have hfields : ∀ field ∈ metricsFields snapshot, '\n'.toUInt8 ∉ field.1 := by
    simp only [metricsFields, List.forall_mem_cons]
    exact ⟨by decide, by decide, by decide, by decide, by decide, by decide, by decide, by decide,
      by decide, List.forall_mem_nil _⟩
  rw [formatMetrics_eq]
  refine .listing rfl (List.forall_mem_cons.2 ⟨by decide, List.forall_mem_map.2 ?_⟩) fun _ =>
    List.forall_mem_cons.2 ⟨by decide, List.forall_mem_map.2 fun _ _ => not_terminator_numeral _⟩
  exact fun field hfield => notMem_append (hfields field hfield) (plain_numeral _).newline

end Protocol

end Gpumemd
