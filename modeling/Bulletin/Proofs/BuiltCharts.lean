import Bulletin.Chart.Payload
import Bulletin.Proofs.CsvReading

/-!
# What a chart shows

A specification and rows give a chart, and here it is said which, without the builder: which fields
it names, which value it puts in front, which rows it carries. A field is named by the first option
that holds a text for it, and otherwise it is a column of the rows, as far to the right as the field
has its place and there are columns. A cap counts for the rows that the chart carries and for
nothing else.

* `ChartSpec.text?_eq_some_iff` — what options set
* `Chart.namesField_or` — a field with its default
* `Chart.lays_layoutOf` — the layout, one case for each type
* `Chart.charts_of_specs` — all charts of a list of specifications
-/

namespace Bulletin

/-! ## Columns and entries -/

theorem columns_ne_nil_iff {rows : List Record} :
    columns rows ≠ [] ↔ ∃ row ∈ rows, row.keys ≠ [] := by
  constructor
  · intro h
    obtain ⟨name, hname⟩ := List.exists_mem_of_ne_nil _ h
    obtain ⟨row, hrow, hkey⟩ := mem_columns.mp hname
    exact ⟨row, hrow, List.ne_nil_of_mem hkey⟩
  · rintro ⟨row, hrow, h⟩
    obtain ⟨name, hname⟩ := List.exists_mem_of_ne_nil _ h
    exact List.ne_nil_of_mem (mem_columns.mpr ⟨row, hrow, hname⟩)

namespace Fields

variable {α : Type}

theorem onceEach_keys_ofList (entries : List (String × α)) :
    OnceEach (entries.map Prod.fst) (ofList entries).keys := by
  have hkeys : (ofList entries).keys = (entries.map Prod.fst).eraseDups :=
    keys_foldl_insert Prod.snd
  rw [hkeys]
  exact onceEach_eraseDups _

/-- Of several entries with a name the last counts. -/
theorem get?_ofList_of_last {key : String} {value : α} {before after : List (String × α)}
    (h : key ∉ after.map Prod.fst) :
    (ofList (before ++ (key, value) :: after)).get? key = some value := by
  rw [ofList, List.foldl_append, List.foldl_cons, get?_foldl_insert_of_notMem Prod.snd h,
    get?_insert, if_pos rfl]

end Fields

/-! ## What options set -/

namespace ChartSpec

variable {spec : ChartSpec} {key name : String} {keys : List String}

/-- An option holds a text, and not the empty one. -/
def Holds (spec : ChartSpec) (key text : String) : Prop :=
  spec.options.get? key = some (.string text) ∧ text ≠ ""

/-- The first of some options that hold a text holds this one. -/
def Sets (spec : ChartSpec) (keys : List String) (text : String) : Prop :=
  ∃ before key after, keys = before ++ key :: after ∧ spec.Holds key text ∧
    ∀ other ∈ before, ∀ text, ¬ spec.Holds other text

/-- None of some options holds a text. -/
def SetsNone (spec : ChartSpec) (keys : List String) : Prop :=
  ∀ key ∈ keys, ∀ text, ¬ spec.Holds key text

theorem text?_cons_of_holds (h : spec.Holds key name) : spec.text? (key :: keys) = some name := by
  obtain ⟨hget, hne⟩ := h
  simp [text?, hget, Json.string?, hne]

theorem text?_cons_of_not_holds (h : ∀ text, ¬ spec.Holds key text) :
    spec.text? (key :: keys) = spec.text? keys := by
  cases hget : (spec.options.get? key).bind Json.string? with
  | none => simp only [text?, List.filterMap_cons, hget]
  | some text =>
    have hempty : text = "" := by
      obtain ⟨v, hv, hstring⟩ := Option.bind_eq_some_iff.mp hget
      cases v <;> cases hstring
      by_contra hne
      exact h text ⟨hv, hne⟩
    simp [text?, hget, hempty]

theorem text?_eq_none_iff : spec.text? keys = none ↔ spec.SetsNone keys := by
  induction keys with
  | nil => simp [text?, SetsNone]
  | cons key keys ih =>
    by_cases h : ∃ text, spec.Holds key text
    · obtain ⟨text, htext⟩ := h
      rw [text?_cons_of_holds htext]
      exact ⟨fun hnone => (nomatch hnone), fun hnone => absurd htext (hnone key (by simp) text)⟩
    · have h : ∀ text, ¬ spec.Holds key text := fun text htext => h ⟨text, htext⟩
      rw [text?_cons_of_not_holds h, ih]
      exact ⟨fun hnone => List.forall_mem_cons.mpr ⟨h, hnone⟩,
        fun hnone => (List.forall_mem_cons.mp hnone).2⟩

theorem text?_eq_some_iff : spec.text? keys = some name ↔ spec.Sets keys name := by
  induction keys with
  | nil => simp [text?, Sets]
  | cons key keys ih =>
    by_cases h : ∃ text, spec.Holds key text
    · obtain ⟨text, htext⟩ := h
      rw [text?_cons_of_holds htext]
      constructor
      · intro heq
        cases heq
        exact ⟨[], key, keys, rfl, htext, by simp⟩
      · rintro ⟨before, first, after, hkeys, hfirst, hbefore⟩
        cases before with
        | nil =>
          cases hkeys
          have hsame := htext.1.symm.trans hfirst.1
          simpa using hsame
        | cons other before =>
          cases hkeys
          exact absurd htext (hbefore _ List.mem_cons_self text)
    · have h : ∀ text, ¬ spec.Holds key text := fun text htext => h ⟨text, htext⟩
      rw [text?_cons_of_not_holds h, ih]
      constructor
      · rintro ⟨before, first, after, rfl, hfirst, hbefore⟩
        exact ⟨key :: before, first, after, rfl, hfirst, List.forall_mem_cons.mpr ⟨h, hbefore⟩⟩
      · rintro ⟨before, first, after, hkeys, hfirst, hbefore⟩
        cases before with
        | nil =>
          cases hkeys
          exact absurd hfirst (h name)
        | cons other before =>
          cases hkeys
          exact ⟨before, first, after, rfl, hfirst, (List.forall_mem_cons.mp hbefore).2⟩

end ChartSpec

/-- A type that is not known keeps its text. -/
theorem ChartType.known_or_verbatim (text : String) :
    (ChartType.ofTag text).known = true ∨ ChartType.ofTag text = .unknown text := by
  unfold ChartType.ofTag
  split
  case h_11 => exact .inr rfl
  all_goals exact .inl rfl

namespace Chart

variable {cap : Option Nat} {rows : List Record} {spec : ChartSpec} {keys : List String}
  {place : Nat} {field : Option String}

/-! ## Fields -/

/-- The field that a chart names: the text that options set, and if they set none a column of the
rows, the one at the place of the field or the last one before it. -/
structure NamesField (rows : List Record) (spec : ChartSpec) (keys : List String) (place : Nat)
    (field : Option String) : Prop where
  of_option : ∀ name, spec.Sets keys name → field = some name
  /-- the default is a field of one of the rows -/
  is_column : spec.SetsNone keys → ∀ name, field = some name → ∃ row ∈ rows, name ∈ row.keys
  /-- there is a default if a row has a field at all -/
  isSome_iff : spec.SetsNone keys → (field.isSome = true ↔ ∃ row ∈ rows, row.keys ≠ [])
  at_place : spec.SetsNone keys →
    field = (columns rows)[min place ((columns rows).length - 1)]?

theorem isSome_getElem?_min {α : Type} (names : List α) (place : Nat) :
    names[min place (names.length - 1)]?.isSome = true ↔ names ≠ [] := by
  rw [isSome_getElem?, ← List.length_pos_iff]
  omega

theorem namesField_or (h : field = (columns rows)[min place ((columns rows).length - 1)]?) :
    NamesField rows spec keys place ((spec.text? keys).or field) := by
  have hdefault : spec.SetsNone keys → (spec.text? keys).or field = field := fun hnone => by
    rw [ChartSpec.text?_eq_none_iff.mpr hnone, Option.none_or]
  refine ⟨fun name hset => ?_, fun hnone name heq => ?_, fun hnone => ?_, fun hnone => ?_⟩
  · rw [ChartSpec.text?_eq_some_iff.mpr hset, Option.some_or]
  · rw [hdefault hnone, h] at heq
    exact mem_columns.mp (List.mem_of_getElem? heq)
  · rw [hdefault hnone, h, isSome_getElem?_min, columns_ne_nil_iff]
  · rw [hdefault hnone, h]

/-- The default at the next place falls back on the one before. -/
theorem getElem?_or_min {α : Type} (names : List α) (place : Nat) :
    names[place + 1]?.or names[min place (names.length - 1)]?
      = names[min (place + 1) (names.length - 1)]? := by
  by_cases h : place + 1 < names.length
  · rw [List.getElem?_eq_getElem h, Option.some_or, Nat.min_eq_left (by omega),
      List.getElem?_eq_getElem h]
  · rw [List.getElem?_eq_none (by omega), Option.none_or, Nat.min_eq_right (by omega),
      Nat.min_eq_right (by omega)]

/-! ## Headline values -/

/-- The value in front of a chart: that of the field in the first row, else `null`. -/
inductive Headline (rows : List Record) : Option String → Json → Prop
  | value {row : Record} {rest : List Record} {name : String} {v : Json}
    (hrows : rows = row :: rest) (hget : row.get? name = some v) : Headline rows (some name) v
  | null {field : Option String}
    (h : ∀ row rest name, rows = row :: rest → field = some name → row.get? name = none) :
    Headline rows field .null

theorem headline_firstValue (rows : List Record) (field : Option String) :
    Headline rows field (firstValue rows field) := by
  cases field with
  | none => exact .null (by rintro row rest name hrows ⟨⟩)
  | some name =>
    cases rows with
    | nil => exact .null (by rintro row rest name ⟨⟩)
    | cons row rest =>
      cases hget : row.get? name with
      | none =>
        have hnull : firstValue (row :: rest) (some name) = .null := by
          rw [firstValue, Record.value, hget, Option.getD_none]
        rw [hnull]
        refine .null ?_
        rintro _ _ _ ⟨⟩ ⟨⟩
        exact hget
      | some v =>
        have hvalue : firstValue (row :: rest) (some name) = v := by
          rw [firstValue, Record.value, hget, Option.getD_some]
        rw [hvalue]
        exact .value rfl hget

/-! ## Layouts -/

/-- A part of a chart that has no default: what options set, if they set it. -/
def IsOption (spec : ChartSpec) (keys : List String) (field : Option String) : Prop :=
  ∀ name, field = some name ↔ spec.Sets keys name

/-- The columns of a table: the texts of a list that an option holds, else those of the rows. -/
inductive NamesColumns (rows : List Record) (spec : ChartSpec) : List String → Prop
  | listed {items : List Json} (h : spec.options.get? "columns" = some (.array items)) :
    NamesColumns rows spec (items.filterMap Json.string?)
  | all (h : ∀ items, spec.options.get? "columns" ≠ some (.array items)) :
    NamesColumns rows spec (columns rows)

/-- The layout of a chart, by the type of its specification. -/
inductive Lays (rows : List Record) (spec : ChartSpec) : ChartLayout → Prop
  | axis {x y series : Option String}
    (htype : spec.type = .bar ∨ spec.type = .line ∨ spec.type = .scatter)
    (hx : NamesField rows spec ["x_field", "x_axis"] 0 x)
    (hy : NamesField rows spec ["y_field", "y_axis"] 1 y)
    (hseries : IsOption spec ["series_field", "series"] series) : Lays rows spec (.axis x y series)
  | pie {label value : Option String} (htype : spec.type = .pie)
    (hlabel : NamesField rows spec ["label_field", "label"] 0 label)
    (hvalue : NamesField rows spec ["value_field", "value"] 1 value) :
    Lays rows spec (.pie label value)
  | table {names : List String} (htype : spec.type = .table)
    (hnames : NamesColumns rows spec names) : Lays rows spec (.table names)
  | metric {field format : Option String} {v : Json} (htype : spec.type = .metric)
    (hfield : NamesField rows spec ["value_field", "value"] 0 field) (hv : Headline rows field v)
    (hformat : IsOption spec ["format"] format) : Lays rows spec (.metric field v format)
  | gauge {field : Option String} {v : Json} (htype : spec.type = .gauge)
    (hfield : NamesField rows spec ["value_field", "value"] 0 field) (hv : Headline rows field v) :
    Lays rows spec (.gauge field v ((spec.number? "min").getD (Binary64.ofInt 0))
      ((spec.number? "max").getD (Binary64.ofInt 100)))
  | heatmap {x y value : Option String} (htype : spec.type = .heatmap)
    (hx : NamesField rows spec ["x_field", "x_axis"] 0 x)
    (hy : NamesField rows spec ["y_field", "y_axis"] 1 y)
    (hvalue : NamesField rows spec ["value_field", "value"] 2 value) :
    Lays rows spec (.heatmap x y value)
  | raw {tag : String} (htype : spec.type = .unknown tag) : Lays rows spec (.raw spec.options)

theorem lays_layoutOf (rows : List Record) (spec : ChartSpec) :
    Lays rows spec (layoutOf rows spec) := by
  have hfirst : (columns rows)[0]? = (columns rows)[min 0 ((columns rows).length - 1)]? := by
    rw [Nat.zero_min]
  have hsecond : (columns rows)[1]?.or (columns rows)[0]?
      = (columns rows)[min 1 ((columns rows).length - 1)]? := by
    rw [hfirst, getElem?_or_min]
  have hthird : (columns rows)[2]?.or ((columns rows)[1]?.or (columns rows)[0]?)
      = (columns rows)[min 2 ((columns rows).length - 1)]? := by
    rw [hsecond, getElem?_or_min]
  have hoption : ∀ keys, IsOption spec keys (spec.text? keys) := fun keys name =>
    ChartSpec.text?_eq_some_iff
  cases htype : spec.type <;> simp only [layoutOf, htype]
  case bar => exact .axis (.inl htype) (namesField_or hfirst) (namesField_or hsecond) (hoption _)
  case line =>
    exact .axis (.inr (.inl htype)) (namesField_or hfirst) (namesField_or hsecond) (hoption _)
  case scatter =>
    exact .axis (.inr (.inr htype)) (namesField_or hfirst) (namesField_or hsecond) (hoption _)
  case pie => exact .pie htype (namesField_or hfirst) (namesField_or hsecond)
  case table =>
    split
    · next items hitems => exact .table htype (.listed hitems)
    · next h => exact .table htype (.all fun items hitems => h items hitems)
  case metric => exact .metric htype (namesField_or hfirst) (headline_firstValue _ _) (hoption _)
  case gauge => exact .gauge htype (namesField_or hfirst) (headline_firstValue _ _)
  case heatmap =>
    exact .heatmap htype (namesField_or hfirst) (namesField_or hsecond) (namesField_or hthird)
  case unknown => exact .raw htype

/-! ## Charts -/

/-- The chart that a specification and rows give. -/
structure Draws (cap : Option Nat) (rows : List Record) (spec : ChartSpec) (chart : Chart) :
    Prop where
  type : chart.type = spec.type
  title : chart.title = spec.title.getD spec.name
  /-- the rows that it carries are the first ones, as they are -/
  rows_prefix : chart.rows <+: rows
  /-- it carries as many as the cap allows -/
  rows_length : chart.rows.length = cap.elim rows.length (min · rows.length)
  layout : Lays rows spec chart.layout
  /-- a type that is not known goes through with its options -/
  unknown : ∀ tag, spec.type = .unknown tag →
    chart.type.tag = tag ∧ chart.layout = .raw spec.options

theorem draws_build (cap : Option Nat) (rows : List Record) (spec : ChartSpec) :
    Draws cap rows spec (build cap rows spec) where
  type := rfl
  title := rfl
  rows_prefix := by
    cases cap with
    | none => exact List.prefix_rfl
    | some n => exact List.take_prefix n rows
  rows_length := by
    cases cap with
    | none => rfl
    | some n => exact List.length_take
  layout := lays_layoutOf rows spec
  unknown tag htype := by simp [build, layoutOf, htype, ChartType.tag]

/-- **All charts of a list of specifications.** There is one for each name, in the order in which
the names first come, and it is drawn after the last specification of its name, with the columns and
the first row of all rows, whatever the cap. A type that is not known is the tag as it was given. -/
theorem charts_of_specs (cap : Option Nat) (rows : List Record) (specs : List ChartSpec) :
    OnceEach (specs.map ChartSpec.name) (buildAll cap rows specs).keys ∧
    OnceEach (rows.flatMap Fields.keys) (columns rows) ∧
    (∀ earlier spec later, specs = earlier ++ spec :: later →
      spec.name ∉ later.map ChartSpec.name →
      ∃ chart, (buildAll cap rows specs).get? spec.name = some chart ∧
        Draws cap rows spec chart) ∧
    ∀ text, (ChartType.ofTag text).known = true ∨ ChartType.ofTag text = .unknown text := by
  have hnames : ∀ specs : List ChartSpec,
      (specs.map fun spec => (spec.name, build cap rows spec)).map Prod.fst
        = specs.map ChartSpec.name := fun specs => List.map_map
  refine ⟨?_, onceEach_columns rows, ?_, ChartType.known_or_verbatim⟩
  · rw [← hnames]
    exact Fields.onceEach_keys_ofList _
  · rintro earlier spec later rfl hlast
    refine ⟨_, ?_, draws_build cap rows spec⟩
    rw [← hnames] at hlast
    rw [buildAll, List.map_append, List.map_cons]
    exact Fields.get?_ofList_of_last hlast

/-- Of two specifications with one name the later gives the chart, with the first field of the only
row that the cap leaves out. -/
theorem charts_of_specs_of_repeated_name :
    let rows := [Fields.ofList [("load", Json.nat 95)], Fields.ofList [("host", .string "a")]]
    let bar : ChartSpec := ⟨"loads", .bar, some "Loads", ∅⟩
    let metric : ChartSpec := ⟨"loads", .metric, none, Fields.single "value_field" (.string "")⟩
    let sankey : ChartSpec := ⟨"flows", .unknown "Sankey", none, ∅⟩
    metric.name ∉ [sankey].map ChartSpec.name ∧
      ∃ chart, (buildAll (some 0) rows [bar, metric, sankey]).get? metric.name = some chart ∧
        Draws (some 0) rows metric chart := by
  intro rows bar metric sankey
  have hlast : metric.name ∉ [sankey].map ChartSpec.name := by decide
  exact ⟨hlast, (charts_of_specs (some 0) rows [bar, metric, sankey]).2.2.1 [bar] metric [sankey]
    rfl hlast⟩

end Chart

end Bulletin
