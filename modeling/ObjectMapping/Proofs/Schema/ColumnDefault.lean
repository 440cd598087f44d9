import ObjectMapping.Proofs.TypeTree.Spelling
import ObjectMapping.Proofs.Value.Decoding
import ObjectMapping.Schema.Catalog

/-! # Defaults of columns

The default of a column is read for the type of the column, and the slot gets this type or, if the
column is nullable, this type or nothing. Only the missing value tells the two types apart: any other
document is read for both of them alike, so a column has the default that a field with the type of its
slot would have. But a missing value is no default of a nullable column, although its slot takes one.

* `Catalog.columnType` is the type that the slot of a column gets.
* `decode_orNone`: but for the missing value, nothing changes if a type may be missing.
* `fails_null`: no column type takes a missing value.
* **`Catalog.column_default`** — which defaults of columns are accepted, what they are, and that they
  are those of fields.
* **`Catalog.column_default_refused`** — a missing value that is refused. -/

namespace ObjectMapping

open Outcome Decoding

/-- A column or nothing is of the type of the column or nothing. -/
def Catalog.columnType (c : Catalog) (entry : ColumnEntry) : Except Error FieldType := do
  let type ← entry.type.fieldType c.names
  return if entry.nullable then type.orNone else type

variable {ns : Namespace} {classes : ClassTable} {type : FieldType} {document : Json} {v : Value}

/-! ## Types of columns -/

/-- The type of a column is that of a class or of lists. -/
theorem ColumnType.fieldType_eq_ok {column : ColumnType} (h : column.fieldType ns = .ok type) :
    (∃ handle, type = .named handle) ∨ ∃ item, type = .list item := by
  cases column with
  | enum name =>
    rw [fieldType] at h
    split at h
    · obtain rfl := Except.ok.inj h
      exact .inl ⟨_, rfl⟩
    · cases h
  | array item =>
    rw [fieldType, bind_eq_ok] at h
    obtain ⟨inner, -, hlist⟩ := h
    exact .inr ⟨inner, (Except.ok.inj hlist).symm⟩
  | json => cases h
  | _ =>
    obtain rfl := Except.ok.inj h
    exact .inl ⟨_, rfl⟩

/-- The type of a column becomes optional by itself. -/
theorem ColumnType.orNone_eq {column : ColumnType} (h : column.fieldType ns = .ok type) :
    type.orNone = .optional type := by
  rcases fieldType_eq_ok h with ⟨handle, rfl⟩ | ⟨item, rfl⟩ <;> rfl

/-- No type of a column takes a missing value. -/
theorem ColumnType.fails_null {column : ColumnType} (h : column.fieldType ns = .ok type) :
    Fails (decode classes type .null) := by
  rcases fieldType_eq_ok h with ⟨handle, rfl⟩ | ⟨item, rfl⟩
  · rw [decode]
    split
    · next builtin hbuiltin =>
      have hscalar : scalar? builtin .null = none := by cases builtin <;> rfl
      rw [hscalar]
      exact fails_mismatch _ _
    · split
      · exact fails_mismatch _ _
      · split
        · exact fun _ => ⟨_, rfl⟩
        · exact fails_mismatch _ _
  · rw [decode] <;> first | exact fails_mismatch _ _ | simp

/-- But for the missing value, the same is read for a type and for the type or nothing. -/
theorem decode_optional (hdocument : document ≠ .null) :
    Value.decode classes (.optional type) document = Value.decode classes type document := by
  rw [Value.decode, Value.decode, Decoding.decode]
  exact hdocument

namespace Catalog

variable {c : Catalog} {entry : ColumnEntry}

/-- What the default of a column is read as, and what it would be read as for the slot. -/
theorem decode_columnType {column : FieldType} (hcolumn : entry.type.fieldType c.names = .ok column)
    (htype : c.columnType entry = .ok type) (hnull : ¬ (entry.nullable = true ∧ document = .null)) :
    Value.decode classes column document = Value.decode classes type document := by
  rw [columnType, hcolumn] at htype
  obtain rfl := Except.ok.inj htype
  cases hnullable : entry.nullable with
  | false => rfl
  | true =>
    have hdocument : document ≠ .null := fun hdocument => hnull ⟨hnullable, hdocument⟩
    rw [if_pos rfl, ColumnType.orNone_eq hcolumn, decode_optional hdocument]

/-- The default of a column is read for the type of its slot, unless it is missing on purpose. -/
theorem columnDefault_eq (hdefault : entry.default? = some document)
    (htype : c.columnType entry = .ok type) (hnull : ¬ (entry.nullable = true ∧ document = .null)) :
    c.columnDefault entry = some <$> Value.decode c.table type document := by
  obtain ⟨column, hcolumn, -⟩ := bind_eq_ok.mp htype
  rw [columnDefault, hdefault]
  dsimp only
  rw [hcolumn, ok_bind, decode_columnType hcolumn htype hnull]
  cases Value.decode c.table type document <;> rfl

/-- A missing value is refused. -/
theorem columnDefault_null (hdefault : entry.default? = some .null)
    (htype : c.columnType entry = .ok type) : ∃ e, c.columnDefault entry = .error e := by
  obtain ⟨column, hcolumn, -⟩ := bind_eq_ok.mp htype
  obtain ⟨e, he⟩ : ∃ e, Value.decode c.table column .null = .error e :=
    ColumnType.fails_null hcolumn []
  refine ⟨e, ?_⟩
  rw [columnDefault, hdefault]
  dsimp only
  rw [hcolumn]
  exact congrArg (· >>= fun v => Except.ok (some v)) he

/-- A column succeeds with its default. -/
theorem column_eq (c : Catalog) (entry : ColumnEntry) :
    c.column entry = (fun default? => ⟨entry.name, entry.type, entry.nullable, default?,
      entry.serverDefault, entry.primaryKey, entry.autoincrement?, entry.foreignKey?⟩) <$>
        c.columnDefault entry := by
  rw [column]
  cases c.columnDefault entry <;> rfl

/-- A column that has a default is not required, and its slot has the default too. -/
theorem slot_of_default {column : Column} (hname : column.name = entry.name)
    (hcolumn : column.type = entry.type) (hnullable : column.nullable = entry.nullable)
    (hdefault : column.default? = some v) (htype : c.columnType entry = .ok type) :
    column.slot c.names = .ok ⟨entry.name, type, some v, none, true, false⟩ := by
  obtain ⟨base, hbase, hok⟩ := bind_eq_ok.mp htype
  obtain rfl := Except.ok.inj hok
  rw [Column.slot, hcolumn, hbase, ok_bind, hname, hnullable, Column.initial?, Column.isRequired,
    hdefault]
  rfl

/-- The slot of a field with a default, which is read for the type of the field. -/
theorem fieldSlot_eq {typeText : String} (htype : FieldType.parse c.names typeText = .ok type) :
    (c.fieldDeclaration ⟨entry.name, typeText, some document, none, none, true⟩ >>=
        (·.slot c.names))
      = (fun v => ⟨entry.name, type, some v, none, true, false⟩) <$>
          Value.decode c.table type document := by
  rw [fieldDeclaration, fieldDefault]
  dsimp only
  rw [htype, ok_bind]
  cases Value.decode c.table type document with
  | error e => rfl
  | ok v =>
    show FieldDeclaration.slot c.names _ = _
    rw [FieldDeclaration.slot, htype]
    rfl

/-- The slot of a column with a default, which is read for the type of the slot. -/
theorem columnSlot_eq (hdefault : entry.default? = some document)
    (htype : c.columnType entry = .ok type) (hnull : ¬ (entry.nullable = true ∧ document = .null)) :
    (c.column entry >>= (·.slot c.names))
      = (fun v => ⟨entry.name, type, some v, none, true, false⟩) <$>
          Value.decode c.table type document := by
  rw [column_eq, columnDefault_eq hdefault htype hnull]
  cases Value.decode c.table type document with
  | error e => rfl
  | ok v => exact slot_of_default rfl rfl rfl rfl htype

/-! ## The theorem -/

/-- **The default of a column is that of a field with the type of its slot**, unless the column is
nullable and its default is the missing value. The column is accepted exactly if the default is read
for the type of the slot, and it is refused with the same error otherwise; what is read is its
default, as it is of every field with this type and this default, and the slot is the slot of such a
field. A missing value as the default of a nullable column is always refused, although it is read for
the type of the slot. -/
theorem column_default (hdefault : entry.default? = some document)
    (htype : c.columnType entry = .ok type) :
    (¬ (entry.nullable = true ∧ document = .null) →
      c.columnDefault entry = some <$> Value.decode c.table type document ∧
        ((∃ column, c.column entry = .ok column) ↔
          ∃ v, Value.decode c.table type document = .ok v) ∧
        (∀ column, c.column entry = .ok column → ∃ v,
          Value.decode c.table type document = .ok v ∧ column.default? = some v ∧
            column.slot c.names = .ok ⟨entry.name, type, some v, none, true, false⟩) ∧
        ∀ field : FieldEntry, field.default? = some document → field.factory? = none →
          FieldType.parse c.names field.typeText = .ok type →
          c.columnDefault entry = c.fieldDefault field ∧
            (c.column entry >>= (·.slot c.names))
              = c.fieldDeclaration ⟨entry.name, field.typeText, some document, none, none, true⟩ >>=
                  (·.slot c.names)) ∧
      (entry.nullable = true → document = .null →
        Value.decode c.table type document = .ok .none ∧ ∃ e, c.column entry = .error e) := by
  refine ⟨fun hnull => ?_, fun hnullable hdocument => ?_⟩
  · -- apart from null, the document means the same for the type of the slot as for the bare one
    have hcolumn := columnDefault_eq hdefault htype hnull
    refine ⟨hcolumn, ?_, fun column hok => ?_, fun field hfield hfactory hparse => ⟨?_, ?_⟩⟩
    · rw [column_eq, hcolumn]
      cases Value.decode c.table type document <;> simp
    · rw [column_eq, hcolumn] at hok
      cases hvalue : Value.decode c.table type document with
      | error e =>
        rw [hvalue] at hok
        cases hok
      | ok v =>
        rw [hvalue] at hok
        obtain rfl := Except.ok.inj hok
        exact ⟨v, rfl, rfl, slot_of_default rfl rfl rfl rfl htype⟩
    · rw [hcolumn, fieldDefault, hfield, hfactory]
      dsimp only
      rw [hparse, ok_bind]
      cases Value.decode c.table type document <;> rfl
    · rw [columnSlot_eq hdefault htype hnull, fieldSlot_eq hparse]
  · subst hdocument
    obtain ⟨column, hcolumn, hok⟩ := bind_eq_ok.mp htype
    obtain rfl := Except.ok.inj hok
    refine ⟨?_, ?_⟩
    · rw [if_pos hnullable, ColumnType.orNone_eq hcolumn]
      exact (reads_null column).decode_eq
    · obtain ⟨e, he⟩ := columnDefault_null hdefault htype
      exact ⟨e, by rw [column_eq, he]; rfl⟩

/-! ## Tags and notes -/

namespace Sample

/-- A catalog without definitions. -/
def bare : Catalog := .empty .empty ClassHandle.firstFree

/-- A nullable column of tags, one of which is there by default. -/
def tags : ColumnEntry :=
  ⟨"tags", .array .string, true, some (.array [.string "new"]), false, false, none, none⟩

/-- A nullable column whose default is no text. -/
def note : ColumnEntry := ⟨"note", .string, true, some .null, false, false, none, none⟩

/-- The type of the sample column with a list is read. -/
theorem parse_tags : FieldType.parse bare.names "Optional[List[str]]" =
    .ok (.optional (.list (.builtin .str))) := by
  have hstr : (TypeTree.name "str").Spellable := .name (by decide)
  have hlist : (TypeTree.generic "List" [.name "str"]).Spellable :=
    .generic (by decide) (by simp) (by simp [hstr])
  have htree : (TypeTree.generic "Optional" [.generic "List" [.name "str"]]).Spellable :=
    .generic (by decide) (by simp) (by simp [hlist])
  rw [FieldType.parse,
    show "Optional[List[str]]" = TypeTree.text (.generic "Optional" [.generic "List" [.name "str"]])
      from by decide,
    TypeTree.parse_of_writes (TypeTree.writes_text htree), ok_bind]
  rfl

/-- The type of the sample column with a text is read. -/
theorem parse_note :
    FieldType.parse bare.names "Optional[str]" = .ok (.optional (.builtin .str)) := by
  have hstr : (TypeTree.name "str").Spellable := .name (by decide)
  have htree : (TypeTree.generic "Optional" [.name "str"]).Spellable :=
    .generic (by decide) (by simp) (by simp [hstr])
  rw [FieldType.parse,
    show "Optional[str]" = TypeTree.text (.generic "Optional" [.name "str"]) from by decide,
    TypeTree.parse_of_writes (TypeTree.writes_text htree), ok_bind]
  rfl

/-- The default of the sample column with a list is read. -/
theorem decode_tags : Value.decode bare.table (.optional (.list (.builtin .str)))
    (.array [.string "new"]) = .ok (.list [.str "new"]) :=
  ((reads_list (.cons (reads_builtin rfl rfl) .nil)).optional (by simp)).decode_eq

end Sample

open Catalog.Sample

/-- The tags are read like those of a field. -/
theorem column_default_tags :
    (∃ column, bare.column tags = .ok column ∧ column.default? = some (.list [.str "new"])) ∧
      bare.columnDefault tags =
        bare.fieldDefault ⟨"tags", "Optional[List[str]]", tags.default?, none, none, true⟩ := by
  have htype : bare.columnType tags = .ok (.optional (.list (.builtin .str))) := rfl
  obtain ⟨-, haccepted, hstored, hfield⟩ :=
    (column_default (show tags.default? = some (.array [.string "new"]) from rfl) htype).1 (by simp)
  obtain ⟨column, hcolumn⟩ := haccepted.mpr ⟨_, decode_tags⟩
  obtain ⟨v, hv, hdefault, -⟩ := hstored column hcolumn
  obtain rfl := Except.ok.inj (decode_tags.symm.trans hv)
  have hagree := hfield ⟨"tags", "Optional[List[str]]", tags.default?, none, none, true⟩ rfl rfl
    parse_tags
  exact ⟨⟨column, hcolumn, hdefault⟩, hagree.1⟩

/-- **A missing value is refused as the default of a nullable column**, although the slot of the
column takes it, and a field of this type takes it as its default. -/
theorem column_default_refused :
    bare.columnType note = .ok (.optional (.builtin .str)) ∧
      Value.decode bare.table (.optional (.builtin .str)) .null = .ok .none ∧
      bare.column note = .error (.schema (.mismatch [] "str" "null")) ∧
      bare.fieldDefault ⟨"note", "Optional[str]", some .null, none, none, true⟩ = .ok (some .none) ∧
      ¬ ((∃ column, bare.column note = .ok column) ↔
        ∃ v, Value.decode bare.table (.optional (.builtin .str)) .null = .ok v) := by
  have hread : Value.decode bare.table (.optional (.builtin .str)) .null = .ok .none :=
    (reads_null _).decode_eq
  have hdecode : Value.decode bare.table (.builtin .str) .null
      = .error (.schema (.mismatch [] "str" "null")) := by
    rw [Value.decode, FieldType.builtin, Decoding.decode]
    rfl
  have hrefused : bare.column note = .error (.schema (.mismatch [] "str" "null")) := by
    have hdefault : bare.columnDefault note = .error (.schema (.mismatch [] "str" "null")) := by
      simp only [columnDefault, note, ColumnType.fieldType, ok_bind, hdecode]
      rfl
    rw [column_eq, hdefault]
    rfl
  have hfield : bare.fieldDefault ⟨"note", "Optional[str]", some .null, none, none, true⟩
      = .ok (some .none) := by
    rw [fieldDefault]
    dsimp only
    rw [parse_note, ok_bind, hread]
    rfl
  refine ⟨rfl, hread, hrefused, hfield, fun h => ?_⟩
  obtain ⟨column, hcolumn⟩ := h.mpr ⟨_, hread⟩
  rw [hrefused] at hcolumn
  cases hcolumn

end Catalog

end ObjectMapping
