/-
**Column-wise tables.**

A batch is a list of named columns of one length, with nulls.  Columns are found by their names.  The
kernels that compute with batches belong to another library: testing a column for nulls, joining two
masks, choosing columns by their positions, and choosing rows by a mask.  They are a parameter, with
what is documented of them: the result where the arguments fit together.  What they answer otherwise is
left open.

A batch is built from records by reading one column after the other off all of them.  What the
kernels do to such a batch is then said in terms of its columns and its records: choosing columns
chooses among the columns, choosing rows chooses among the records.

Main definitions:

* `RecordBatch`, `RecordBatch.rows` — a batch, and its contents row by row;
* `RecordBatch.indexOf`, `RecordBatch.indicesOf` — finding columns by their names;
* `ArrowKernels` — the null test, the union of masks, and choosing columns and rows;
* `RecordBatch.kernels` — kernels that compute these;
* `Column`, `RecordBatch.ofRecords` — a column as a function of a record, and the batch of some
  records.

Main results:

* `RecordBatch.rows_ofRecords` — a row of the batch is its record, read column by column;
* `RecordBatch.project_ofRecords`, `RecordBatch.filter_ofRecords` — choosing columns and rows, by any
  kernels.
-/

import Mathlib.Data.List.Basic

set_option relaxedAutoImplicit false
set_option autoImplicit false

/-- Why an operation on a batch fails. -/
inductive ArrowError where
  | indexOutOfRange
  | lengthMismatch
  deriving DecidableEq

/-- Named columns of one length; `none` is a null. -/
structure RecordBatch (κ α : Type) where
  columns : List (κ × List (Option α))
  numRows : ℕ
  height : ∀ c ∈ columns, c.2.length = numRows

namespace RecordBatch

variable {κ α : Type}

theorem ext_columns {b b' : RecordBatch κ α} (hcolumns : b.columns = b'.columns)
    (hrows : b.numRows = b'.numRows) : b = b' := by
  cases b
  cases b'
  cases hcolumns
  cases hrows
  rfl

/-- The names of the columns. -/
def schema (b : RecordBatch κ α) : List κ := b.columns.map (·.1)

/-- The contents row by row. -/
def rows (b : RecordBatch κ α) : List (List (Option α)) :=
  (List.range b.numRows).map fun i => b.columns.map fun c => c.2[i]?.join

/-! ### Operations -/

/-- The entries of the column at a position. -/
def column (b : RecordBatch κ α) (i : ℕ) : Except ArrowError (List (Option α)) :=
  match b.columns[i]? with
  | some c => .ok c.2
  | none => .error .indexOutOfRange

/-- The position of the first column of that name. -/
def indexOf [DecidableEq κ] (b : RecordBatch κ α) (name : κ) : Option ℕ :=
  b.schema.findIdx? fun n => decide (n = name)

/-- The positions of the columns whose name is as asked for. -/
def indicesOf (b : RecordBatch κ α) (p : κ → Bool) : List ℕ :=
  b.schema.zipIdx.filterMap fun x => if p x.1 then some x.2 else none

/-- The entries that a mask selects. -/
def keep (mask : List Bool) (column : List (Option α)) : List (Option α) :=
  ((column.zip mask).filter (·.2)).map (·.1)

theorem mem_of_mapM_getElem? {cs ds : List (κ × List (Option α))} {idx : List ℕ}
    (h : idx.mapM (fun i => cs[i]?) = some ds) : ∀ c ∈ ds, c ∈ cs := by
  induction idx generalizing ds with
  | nil =>
      cases h
      exact fun c hc => absurd hc List.not_mem_nil
  | cons i idx ih =>
      rw [List.mapM_cons] at h
      obtain ⟨d, hd, h⟩ := Option.bind_eq_some_iff.mp h
      obtain ⟨ds', hds, h⟩ := Option.bind_eq_some_iff.mp h
      cases h
      intro c hc
      rcases List.mem_cons.mp hc with rfl | hc
      · exact List.mem_of_getElem? hd
      · exact ih hds c hc

theorem length_keep {mask : List Bool} {column : List (Option α)}
    (h : mask.length = column.length) : (keep mask column).length = mask.count true := by
  unfold keep
  induction mask generalizing column with
  | nil => simp
  | cons m mask ih =>
      cases column with
      | nil => cases h
      | cons x column =>
          have := ih (Nat.succ.inj h)
          cases m <;> simp_all

theorem height_project {b : RecordBatch κ α} {idx : List ℕ} {columns : List (κ × List (Option α))}
    (h : idx.mapM (fun i => b.columns[i]?) = some columns) : ∀ c ∈ columns, c.2.length = b.numRows :=
  fun c hc => b.height c (mem_of_mapM_getElem? h c hc)

theorem height_filter {b : RecordBatch κ α} {mask : List Bool} (h : mask.length = b.numRows) :
    ∀ c ∈ b.columns.map (fun c => (c.1, keep mask c.2)), c.2.length = mask.count true := by
  intro c hc
  obtain ⟨d, hd, rfl⟩ := List.mem_map.mp hc
  exact length_keep (h.trans (b.height d hd).symm)

/-- The columns at the given positions. -/
def project (b : RecordBatch κ α) (idx : List ℕ) : Except ArrowError (RecordBatch κ α) :=
  match h : idx.mapM (fun i => b.columns[i]?) with
  | some columns => .ok ⟨columns, b.numRows, height_project h⟩
  | none => .error .indexOutOfRange

/-- The rows that a mask selects. -/
def filter (b : RecordBatch κ α) (mask : List Bool) : Except ArrowError (RecordBatch κ α) :=
  if h : mask.length = b.numRows then
    .ok ⟨b.columns.map fun c => (c.1, keep mask c.2), mask.count true, height_filter h⟩
  else .error .lengthMismatch

end RecordBatch

/-- The kernels: testing a column for nulls, joining two masks, choosing the columns at some positions,
and choosing the rows that a mask selects. -/
class ArrowKernels where
  isNotNull {α : Type} : List (Option α) → Except ArrowError (List Bool)
  orMask : List Bool → List Bool → Except ArrowError (List Bool)
  project {κ α : Type} : RecordBatch κ α → List ℕ → Except ArrowError (RecordBatch κ α)
  filter {κ α : Type} : RecordBatch κ α → List Bool → Except ArrowError (RecordBatch κ α)
  isNotNull_eq {α : Type} (column : List (Option α)) :
    isNotNull column = .ok (column.map Option.isSome)
  orMask_eq {m m' : List Bool} (h : m.length = m'.length) :
    orMask m m' = .ok (List.zipWith (fun x y => x || y) m m')
  project_eq {κ α : Type} {b b' : RecordBatch κ α} {idx : List ℕ}
    (hcolumns : idx.mapM (fun i => b.columns[i]?) = some b'.columns)
    (hrows : b'.numRows = b.numRows) : project b idx = .ok b'
  filter_eq {κ α : Type} {b b' : RecordBatch κ α} {mask : List Bool}
    (hmask : mask.length = b.numRows)
    (hcolumns : b'.columns = b.columns.map fun c => (c.1, RecordBatch.keep mask c.2))
    (hrows : b'.numRows = mask.count true) : filter b mask = .ok b'

namespace RecordBatch

theorem project_eq {κ α : Type} {b b' : RecordBatch κ α} {idx : List ℕ}
    (hcolumns : idx.mapM (fun i => b.columns[i]?) = some b'.columns)
    (hrows : b'.numRows = b.numRows) : b.project idx = .ok b' := by
  unfold project
  split
  · next columns heq =>
      rw [hcolumns] at heq
      cases heq
      exact congrArg Except.ok (ext_columns rfl hrows.symm)
  · next heq =>
      rw [hcolumns] at heq
      cases heq

theorem filter_eq {κ α : Type} {b b' : RecordBatch κ α} {mask : List Bool}
    (hmask : mask.length = b.numRows)
    (hcolumns : b'.columns = b.columns.map fun c => (c.1, keep mask c.2))
    (hrows : b'.numRows = mask.count true) : b.filter mask = .ok b' := by
  rw [filter, dif_pos hmask]
  exact congrArg Except.ok (ext_columns hcolumns.symm hrows.symm)

/-- Kernels that compute what is documented, and fail where the arguments do not fit together. -/
instance kernels : ArrowKernels where
  isNotNull column := .ok (column.map Option.isSome)
  orMask m m' :=
    if m.length = m'.length then .ok (List.zipWith (fun x y => x || y) m m')
    else .error .lengthMismatch
  project := project
  filter := filter
  isNotNull_eq _ := rfl
  orMask_eq h := if_pos h
  project_eq := project_eq
  filter_eq := filter_eq

end RecordBatch

/-! ### Batches of records -/

/-- A column: its name, and what it holds of a record. -/
structure Column (κ α ρ : Type) where
  name : κ
  cell : ρ → Option α

namespace RecordBatch

variable {κ α ρ : Type}

theorem height_ofRecords (cols : List (Column κ α ρ)) (records : List ρ) :
    ∀ c ∈ cols.map (fun c => (c.name, records.map c.cell)), c.2.length = records.length := by
  intro c hc
  obtain ⟨d, -, rfl⟩ := List.mem_map.mp hc
  exact List.length_map _

/-- The batch of some records, built column by column. -/
def ofRecords (cols : List (Column κ α ρ)) (records : List ρ) : RecordBatch κ α where
  columns := cols.map fun c => (c.name, records.map c.cell)
  numRows := records.length
  height := height_ofRecords cols records

variable (cols : List (Column κ α ρ)) (records : List ρ)

@[simp] theorem numRows_ofRecords : (ofRecords cols records).numRows = records.length := rfl

@[simp] theorem schema_ofRecords : (ofRecords cols records).schema = cols.map (·.name) := by
  simp [schema, ofRecords]

/-- **A row of the batch is its record, read column by column.** -/
theorem rows_ofRecords :
    (ofRecords cols records).rows = records.map fun r => cols.map (·.cell r) := by
  refine List.ext_getElem (by simp [rows]) fun i hi hi' => ?_
  have hlt : i < records.length := by simpa using hi'
  simp [rows, ofRecords, hlt]

theorem column_ofRecords {i : ℕ} {c : Column κ α ρ} (h : cols[i]? = some c) :
    (ofRecords cols records).column i = .ok (records.map c.cell) := by
  simp [column, ofRecords, h]

theorem keep_map (p : ρ → Bool) (f : ρ → Option α) :
    keep (records.map p) (records.map f) = (records.filter p).map f := by
  unfold keep
  induction records with
  | nil => rfl
  | cons r records ih =>
      cases hp : p r <;> simp_all

theorem count_map (p : ρ → Bool) : (records.map p).count true = (records.filter p).length := by
  rw [← List.countP_eq_length_filter]
  induction records with
  | nil => rfl
  | cons r records ih =>
      cases hp : p r <;> simp_all

/-- Looking a list of positions up, one after the other. -/
theorem mapM_getElem?_append {idx idx' : List ℕ} {chosen chosen' : List (Column κ α ρ)}
    (h : idx.mapM (fun i => cols[i]?) = some chosen)
    (h' : idx'.mapM (fun i => cols[i]?) = some chosen') :
    (idx ++ idx').mapM (fun i => cols[i]?) = some (chosen ++ chosen') := by
  rw [List.mapM_append, h, h']
  rfl

/-- The column at the first position of a name is the first column of that name. -/
theorem getElem?_of_indexOf [DecidableEq κ] (name : κ) :
    ((ofRecords cols records).indexOf name).bind (fun i => cols[i]?) =
      cols.find? fun c => decide (c.name = name) := by
  unfold indexOf
  rw [schema_ofRecords, List.findIdx?_map]
  induction cols with
  | nil => rfl
  | cons c cols ih =>
      rw [List.findIdx?_cons, List.find?_cons]
      by_cases hc : c.name = name
      · simp [hc]
      · simp only [Function.comp_apply, hc, decide_false, Bool.false_eq_true, if_false,
          Option.bind_map] at ih ⊢
        exact ih

theorem mapM_indexOf [DecidableEq κ] (names : List κ) :
    (names.filterMap (ofRecords cols records).indexOf).mapM (fun i => cols[i]?) =
      some (names.filterMap fun name => cols.find? fun c => decide (c.name = name)) := by
  induction names with
  | nil => rfl
  | cons name names ih =>
      have hget := getElem?_of_indexOf cols records name
      rw [List.filterMap_cons, List.filterMap_cons, ← hget]
      cases hi : (ofRecords cols records).indexOf name with
      | none => exact ih
      | some i =>
          have hlt : i < cols.length := by
            have := (List.findIdx?_eq_some_iff_getElem.mp hi).1
            simpa using this
          rw [Option.bind_some, List.getElem?_eq_getElem hlt, List.mapM_cons, ih,
            List.getElem?_eq_getElem hlt]
          rfl

/-- The columns at the positions of some names, counted from the columns before. -/
theorem mapM_indicesOf_aux (p : κ → Bool) (before : List (Column κ α ρ)) :
    (((cols.map (·.name)).zipIdx before.length).filterMap fun x =>
        if p x.1 then some x.2 else none).mapM (fun i => (before ++ cols)[i]?) =
      some (cols.filter fun c => p c.name) := by
  induction cols generalizing before with
  | nil => rfl
  | cons c cols ih =>
      have hrest := ih (before ++ [c])
      rw [List.length_append, List.length_singleton, List.append_assoc, List.singleton_append]
        at hrest
      rw [List.map_cons, List.zipIdx_cons, List.filterMap_cons]
      by_cases hc : p c.name = true
      · simp only [hc, if_true, List.filter_cons_of_pos, List.mapM_cons, hrest]
        simp
      · simp only [hc, if_false, List.filter_cons_of_neg, hrest, Bool.false_eq_true,
          not_false_eq_true]

theorem mapM_indicesOf (p : κ → Bool) :
    ((ofRecords cols records).indicesOf p).mapM (fun i => cols[i]?) =
      some (cols.filter fun c => p c.name) := by
  unfold indicesOf
  rw [schema_ofRecords]
  exact mapM_indicesOf_aux cols p []

section Kernels

variable [ArrowKernels]

theorem isNotNull_map (f : ρ → Option α) :
    ArrowKernels.isNotNull (records.map f) = .ok (records.map fun r => (f r).isSome) := by
  rw [ArrowKernels.isNotNull_eq, List.map_map]
  rfl

theorem orMask_map (p q : ρ → Bool) :
    ArrowKernels.orMask (records.map p) (records.map q) = .ok (records.map fun r => p r || q r) := by
  rw [ArrowKernels.orMask_eq (by rw [List.length_map, List.length_map]), List.zipWith_map,
    List.zipWith_self]

/-- **Choosing columns chooses among the columns.** -/
theorem project_ofRecords {idx : List ℕ} {chosen : List (Column κ α ρ)}
    (h : idx.mapM (fun i => cols[i]?) = some chosen) :
    ArrowKernels.project (ofRecords cols records) idx = .ok (ofRecords chosen records) := by
  refine ArrowKernels.project_eq ?_ rfl
  induction idx generalizing chosen with
  | nil =>
      cases h
      rfl
  | cons i idx ih =>
      rw [List.mapM_cons] at h ⊢
      obtain ⟨c, hc, h⟩ := Option.bind_eq_some_iff.mp h
      obtain ⟨cs, hcs, h⟩ := Option.bind_eq_some_iff.mp h
      cases h
      rw [ih hcs]
      simp [ofRecords, hc]

/-- **Choosing rows chooses among the records.** -/
theorem filter_ofRecords (p : ρ → Bool) :
    ArrowKernels.filter (ofRecords cols records) (records.map p) =
      .ok (ofRecords cols (records.filter p)) := by
  refine ArrowKernels.filter_eq (List.length_map _) ?_ (count_map records p).symm
  simp [ofRecords, keep_map]

end Kernels

end RecordBatch
