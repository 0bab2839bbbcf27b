import Mowis.Lib.Csv
import Mowis.Tools.Storage

/-!
# The table tools

`csv_write` and `csv_read` of `agentd/src/tools/data.rs`.  The writer takes what is a text in the
rows that are arrays; the reader takes the first record for the headers.
-/

namespace Mowis.Tools.Tables

open Mowis.Lib Mowis.Lib.UnixPath Mowis.Lib.Symlink
open Mowis.Review (Json)
open Storage (ToolContext)

/-- The CSV library, which is not in the repository.  The reader yields a record or an error, again
and again. -/
structure Csv where
  encode : List (List Text) → Text
  parse : UInt8 → Text → List (Except Text (List Text))

inductive TableError where
  | message (text : Text)
  | path (e : ToolError)
  | io (e : IoError)
  | csv (e : Text)
  | unequalLengths

def missingPath (tool : String) : TableError := .message (tool ++ ": missing path").toList

def missingRows : TableError := .message "csv_write: missing data/rows".toList

def asArray : Json → Option (List Json)
  | .array items => some items
  | _ => none

/-- `as_str().unwrap_or("")` -/
def cellField (cell : Json) : Text := cell.asStr.getD []

/-- `input["data"]`, or `input["rows"]` where that is no array. -/
def rowsOf (input : Json) : Option (List Json) :=
  ((input.get "data".toList).bind asArray).or ((input.get "rows".toList).bind asArray)

def fits (written : List (List Text)) (record : List Text) : Bool :=
  written.head?.all fun first => first.length == record.length

/-- The loop over the rows: the records that were written, and whether it came to its end. -/
def writeRecords (written : List (List Text)) : List Json → List (List Text) × Bool
  | [] => (written, true)
  | row :: rows =>
    match asArray row with
    | none => writeRecords written rows
    | some cells =>
      let record := cells.map cellField
      if fits written record then writeRecords (written ++ [record]) rows else (written, false)

section Tools

variable (csv : Csv) (ctx : ToolContext) (w : World)

def csvWrite (input : Json) : World × Except TableError Unit :=
  match input.getStr "path".toList with
  | none => (w, .error (missingPath "csv_write"))
  | some path =>
    match rowsOf input with
    | none => (w, .error missingRows)
    | some rows =>
      match resolvePath w.fs (base ctx.rootPath) (utf8 path) with
      | .error e => (w, .error (.path e))
      | .ok p =>
        match w.createParent p with
        | (w, .error e) => (w, .error (.io e))
        | (w, .ok ()) =>
          let (written, complete) := writeRecords [] rows
          match w.write p (utf8 (csv.encode written)) false with
          | (w, .error e) => (w, .error (.io e))
          | (w, .ok ()) => (w, if complete then .ok () else .error .unequalLengths)

structure Table where
  headers : List Text
  rows : List (List Text)
  deriving DecidableEq

def delimiterOf (input : Json) : UInt8 :=
  let delimiter := ((input.getStr "delimiter".toList).getD ",".toList).head?.getD ','
  UInt8.ofNat delimiter.toNat

/-- `result?` for each record. -/
def collect : List (Except Text (List Text)) → Except TableError (List (List Text))
  | [] => .ok []
  | .error e :: _ => .error (.csv e)
  | .ok record :: results => (collect results).map (record :: ·)

/-- A first record that cannot be read leaves no headers. -/
def tableOf (results : List (Except Text (List Text))) : Except TableError Table :=
  let headers := match results.head? with
    | some (.ok record) => record
    | _ => []
  (collect results.tail).map fun rows => ⟨headers, rows⟩

def csvRead (input : Json) : World × Except TableError Table :=
  match input.getStr "path".toList with
  | none => (w, .error (missingPath "csv_read"))
  | some path =>
    match resolvePath w.fs (base ctx.rootPath) (utf8 path) with
    | .error e => (w, .error (.path e))
    | .ok p =>
      match w.read p with
      | (w, .error e) => (w, .error (.io e))
      | (w, .ok bytes) =>
        match decodeUtf8 bytes with
        | none => (w, .error (.io .invalidData))
        | some content => (w, tableOf (csv.parse (delimiterOf input) content))

end Tools

def scalarText : Json → Option Text
  | .string s => some s
  | .number n => if n = [] then none else some n
  | .bool b => some (if b then "true".toList else "false".toList)
  | _ => none

def rowTexts (row : Json) : Option (List Text) :=
  (asArray row).bind fun cells => cells.mapM scalarText

def Even (rows : List Json) : Prop :=
  ∀ cells cells', .array cells ∈ rows → .array cells' ∈ rows → cells.length = cells'.length

/-- The call goes to the file at a place, with the delimiter that was written. -/
structure LeadsTo (ctx : ToolContext) (w : World) (input : Json) (place : Place) : Prop where
  file : ∃ path p, input.getStr "path".toList = some path ∧
    resolvePath w.fs (base ctx.rootPath) (utf8 path) = .ok p ∧
    w.fs.lookup true (absolute p) false = .found place
  comma : delimiterOf input = UInt8.ofNat ','.toNat

/-- When the tool has said that it wrote the table, it did write every row, and of a table of
scalars the reader finds all texts in the file, the first row as the headers. -/
def Kept (csv : Csv) (rows : List Json) : Prop :=
  ∀ ctx w input w', rowsOf input = some rows → csvWrite csv ctx w input = (w', .ok ()) →
    (∀ row ∈ rows, ∃ cells, row = .array cells) ∧
    ∃ place, w'.touched.getLast? = some place ∧
      ∀ table, rows.mapM rowTexts = some table → ∀ ctx' input', LeadsTo ctx' w' input' place →
        (csvRead csv ctx' w' input').2 = .ok ⟨table.headD [], table.tail⟩

def EvenRecords (rs : List (List Text)) : Prop := ∀ r ∈ rs, ∀ r' ∈ rs, r.length = r'.length

instance (rs : List (List Text)) : Decidable (EvenRecords rs) :=
  inferInstanceAs (Decidable (∀ r ∈ rs, ∀ r' ∈ rs, r.length = r'.length))

/-- The library quotes and parses correctly; a record without fields comes back with one that is
empty. -/
def Csv.Faithful (csv : Csv) : Prop :=
  ∀ rs : List (List Text), EvenRecords rs →
    csv.parse (UInt8.ofNat ','.toNat) (csv.encode rs) =
      rs.map fun r => .ok (Lib.Csv.atLeastOne r)

/-- Tables that are refused for their shape; and tables whose rows are arrays, and which, if they
are of scalars, are of texts, in rows that are not empty. -/
def Textual (rows : List Json) : Prop :=
  Even rows → (∀ row ∈ rows, ∃ cells, row = .array cells) ∧
    ∀ table, rows.mapM rowTexts = some table →
      ∀ row ∈ rows, ∃ texts, texts ≠ [] ∧ row = .array (texts.map .string)

def records (rows : List Json) : List (List Text) :=
  (rows.filterMap asArray).map fun cells => cells.map cellField

section Records

variable {rows : List Json} {written : List (List Text)}

theorem asArray_eq_some {row : Json} {cells : List Json} :
    asArray row = some cells ↔ row = .array cells := by
  cases row <;> simp [asArray]

theorem records_cons_array (cells : List Json) (rows : List Json) :
    records (.array cells :: rows) = cells.map cellField :: records rows := rfl

theorem records_cons_none {row : Json} (h : asArray row = none) (rows : List Json) :
    records (row :: rows) = records rows := by
  rw [records, List.filterMap_cons_none h, records]

theorem evenRecords_iff : EvenRecords (records rows) ↔ Even rows := by
  have hmem : ∀ r, r ∈ records rows ↔ ∃ cells, .array cells ∈ rows ∧ cells.map cellField = r := by
    intro r
    simp only [records, List.mem_map, List.mem_filterMap, asArray_eq_some]
    constructor
    · rintro ⟨cells, ⟨row, hrow, rfl⟩, rfl⟩
      exact ⟨cells, hrow, rfl⟩
    · rintro ⟨cells, hcells, rfl⟩
      exact ⟨cells, ⟨_, hcells, rfl⟩, rfl⟩
  simp only [EvenRecords, hmem, Even]
  constructor
  · intro h cells cells' hcells hcells'
    have hlen := h _ ⟨cells, hcells, rfl⟩ _ ⟨cells', hcells', rfl⟩
    rwa [List.length_map, List.length_map] at hlen
  · rintro h _ ⟨cells, hcells, rfl⟩ _ ⟨cells', hcells', rfl⟩
    rw [List.length_map, List.length_map]
    exact h cells cells' hcells hcells'

theorem fits_iff (h : EvenRecords written) (record : List Text) :
    fits written record = true ↔ EvenRecords (written ++ [record]) := by
  constructor
  · intro hfits
    have hall : ∀ r ∈ written ++ [record], r.length = record.length := by
      intro r hr
      rcases List.mem_append.mp hr with hr | hr
      · cases written with
        | nil => cases hr
        | cons first written =>
          rw [h r hr first List.mem_cons_self]
          simpa [fits] using hfits
      · rw [List.mem_singleton.mp hr]
    exact fun r hr r' hr' => (hall r hr).trans (hall r' hr').symm
  · intro heven
    cases written with
    | nil => rfl
    | cons first written =>
      have hlen := heven first List.mem_cons_self record (by simp)
      simpa [fits] using hlen

theorem writeRecords_spec (h : EvenRecords written) (rows : List Json) :
    ((writeRecords written rows).2 = true ↔ EvenRecords (written ++ records rows)) ∧
      ((writeRecords written rows).2 = true →
        (writeRecords written rows).1 = written ++ records rows) := by
  induction rows generalizing written with
  | nil =>
    have hnil : written ++ records [] = written := List.append_nil written
    rw [hnil]
    exact ⟨iff_of_true rfl h, fun _ => rfl⟩
  | cons row rows ih =>
    rw [writeRecords]
    split
    · next hnone =>
      rw [records_cons_none hnone]
      exact ih h
    · next cells hcells =>
      obtain rfl := asArray_eq_some.mp hcells
      rw [records_cons_array]
      have hassoc : written ++ cells.map cellField :: records rows =
          written ++ [cells.map cellField] ++ records rows := by
        rw [List.append_assoc, List.singleton_append]
      dsimp only
      split_ifs with hfits
      · rw [hassoc]
        exact ih ((fits_iff h _).mp hfits)
      · refine ⟨iff_of_false nofun fun heven => hfits ?_, nofun⟩
        rw [hassoc] at heven
        exact (fits_iff h _).mpr fun r hr r' hr' =>
          heven r (List.mem_append_left _ hr) r' (List.mem_append_left _ hr')

theorem writeRecords_complete (h : (writeRecords [] rows).2 = true) :
    Even rows ∧ (writeRecords [] rows).1 = records rows := by
  obtain ⟨hiff, hall⟩ := writeRecords_spec (show EvenRecords [] from fun r hr => nomatch hr) rows
  exact ⟨evenRecords_iff.mp (hiff.mp h), hall h⟩

theorem writeRecords_of_even (h : Even rows) : writeRecords [] rows = (records rows, true) := by
  obtain ⟨hiff, hall⟩ := writeRecords_spec (show EvenRecords [] from fun r hr => nomatch hr) rows
  have hdone := hiff.mpr (evenRecords_iff.mpr h)
  exact Prod.ext (hall hdone) hdone

end Records

section Read

variable {csv : Csv} {ctx : ToolContext} {w w' : World} {input : Json} {rows : List Json}
  {place : Place}

theorem write_ok {w w' : World} {p : Place} {content : List UInt8}
    (h : w.write p content false = (w', .ok ())) :
    ∃ place, w'.touched.getLast? = some place ∧ w'.fs.node place = some (.file content) := by
  unfold World.write at h
  split at h
  · split at h
    · cases h
      exact ⟨_, List.getLast?_concat, Fs.put_self _⟩
    · cases h
  · cases h
    exact ⟨_, List.getLast?_concat, Fs.put_self _⟩
  · cases h

theorem csvWrite_ok (hrows : rowsOf input = some rows)
    (h : csvWrite csv ctx w input = (w', .ok ())) :
    Even rows ∧ ∃ place, w'.touched.getLast? = some place ∧
      w'.fs.node place = some (.file (utf8 (csv.encode (records rows)))) := by
  unfold csvWrite at h
  split at h
  · cases h
  · rw [hrows] at h
    dsimp only at h
    split at h
    · cases h
    · split at h
      · cases h
      · split at h
        · cases h
        · next hwrite =>
          split_ifs at h with hcomplete
          · obtain ⟨heven, hall⟩ := writeRecords_complete hcomplete
            cases h
            rw [hall] at hwrite
            exact ⟨heven, write_ok hwrite⟩
          · cases h

theorem read_place {w : World} {p place : Place} {content : List UInt8}
    (hlookup : w.fs.lookup true (absolute p) false = .found place)
    (hnode : w.fs.node place = some (.file content)) :
    w.read p = (w.touch place w.fs, .ok content) := by
  rw [World.read, hlookup]
  dsimp only
  rw [hnode]

theorem csvRead_of_leadsTo (h : LeadsTo ctx w input place) {content : Text}
    (hnode : w.fs.node place = some (.file (utf8 content))) :
    (csvRead csv ctx w input).2 = tableOf (csv.parse (UInt8.ofNat ','.toNat) content) := by
  obtain ⟨path, p, hpath, hresolve, hlookup⟩ := h.file
  rw [csvRead, hpath]
  dsimp only
  rw [hresolve]
  dsimp only
  rw [read_place hlookup hnode]
  dsimp only
  rw [decodeUtf8_eq_some.mpr rfl, ← h.comma]

theorem collect_ok (rs : List (List Text)) : collect (rs.map .ok) = .ok rs := by
  induction rs with
  | nil => rfl
  | cons r rs ih =>
    rw [List.map_cons, collect, ih]
    rfl

theorem tableOf_ok (rs : List (List Text)) :
    tableOf (rs.map .ok) = .ok ⟨rs.headD [], rs.tail⟩ := by
  cases rs with
  | nil => rfl
  | cons r rs =>
    show (collect (rs.map .ok)).map (fun rows => (⟨r, rows⟩ : Table)) = _
    rw [collect_ok]
    rfl

end Read

section Texts

variable {rows : List Json} {table : List (List Text)}

theorem cellField_iff {cell : Json} {t : Text} (h : scalarText cell = some t) :
    cellField cell = t ↔ cell = .string t := by
  cases cell with
  | string s =>
    obtain rfl := Option.some.inj h
    exact iff_of_true rfl rfl
  | number n =>
    rw [scalarText] at h
    split_ifs at h with hn
    obtain rfl := Option.some.inj h
    exact iff_of_false (fun hnil => hn hnil.symm) nofun
  | bool b =>
    obtain rfl := Option.some.inj h
    cases b
    · exact iff_of_false nofun nofun
    · exact iff_of_false nofun nofun
  | _ => cases h

theorem cells_iff {cells : List Json} {texts : List Text} (h : cells.mapM scalarText = some texts) :
    cells.map cellField = texts ↔ cells = texts.map .string := by
  induction cells generalizing texts with
  | nil =>
    obtain rfl : [] = texts := by simpa using h
    exact iff_of_true rfl rfl
  | cons cell cells ih =>
    simp only [List.mapM_cons, Option.bind_eq_bind, Option.bind_eq_some_iff] at h
    obtain ⟨t, ht, texts', htexts, hsome⟩ := h
    obtain rfl := Option.some.inj hsome
    rw [List.map_cons, List.map_cons, List.cons.injEq, List.cons.injEq, cellField_iff ht, ih htexts]

theorem row_iff {cells : List Json} {texts : List Text} (h : cells.mapM scalarText = some texts) :
    Lib.Csv.atLeastOne (cells.map cellField) = texts ↔ texts ≠ [] ∧ cells = texts.map .string := by
  rw [← cells_iff h]
  unfold Lib.Csv.atLeastOne
  split_ifs with hnil
  · obtain rfl := List.map_eq_nil_iff.mp hnil
    obtain rfl : [] = texts := by simpa using h
    exact iff_of_false nofun fun hboth => hboth.1 rfl
  · constructor
    · rintro rfl
      exact ⟨hnil, rfl⟩
    · exact And.right

theorem mapM_strings (texts : List Text) :
    (texts.map Json.string).mapM scalarText = some texts := by
  induction texts with
  | nil => rfl
  | cons t texts ih =>
    rw [List.map_cons, List.mapM_cons, ih]
    rfl

theorem table_iff (h : rows.mapM rowTexts = some table) :
    (records rows).map Lib.Csv.atLeastOne = table ↔
      ∀ row ∈ rows, ∃ texts, texts ≠ [] ∧ row = .array (texts.map .string) := by
  induction rows generalizing table with
  | nil =>
    obtain rfl : [] = table := by simpa using h
    exact iff_of_true rfl (List.forall_mem_nil _)
  | cons row rows ih =>
    simp only [List.mapM_cons, Option.bind_eq_bind, Option.bind_eq_some_iff] at h
    obtain ⟨texts, hrow, table', htable, hsome⟩ := h
    obtain rfl := Option.some.inj hsome
    obtain ⟨cells, hcells, htexts⟩ := Option.bind_eq_some_iff.mp hrow
    obtain rfl := asArray_eq_some.mp hcells
    rw [records_cons_array, List.map_cons, List.cons.injEq, row_iff htexts, ih htable,
      List.forall_mem_cons]
    refine and_congr_left fun _ => ?_
    constructor
    · rintro ⟨hne, rfl⟩
      exact ⟨texts, hne, rfl⟩
    · rintro ⟨texts', hne, heq⟩
      obtain rfl := Json.array.inj heq
      rw [mapM_strings, Option.some.injEq] at htexts
      exact ⟨htexts ▸ hne, by rw [htexts]⟩

theorem length_of_mapM (h : rows.mapM rowTexts = some table) :
    (records rows).length = table.length := by
  induction rows generalizing table with
  | nil =>
    obtain rfl : [] = table := by simpa using h
    rfl
  | cons row rows ih =>
    simp only [List.mapM_cons, Option.bind_eq_bind, Option.bind_eq_some_iff] at h
    obtain ⟨texts, hrow, table', htable, hsome⟩ := h
    obtain rfl := Option.some.inj hsome
    obtain ⟨cells, hcells, -⟩ := Option.bind_eq_some_iff.mp hrow
    obtain rfl := asArray_eq_some.mp hcells
    rw [records_cons_array, List.length_cons, List.length_cons, ih htable]

theorem eq_of_headD_tail {l l' : List (List Text)} (hlen : l.length = l'.length)
    (hhead : l.headD [] = l'.headD []) (htail : l.tail = l'.tail) : l = l' := by
  cases l with
  | nil => exact (List.length_eq_zero_iff.mp hlen.symm).symm
  | cons r l =>
    cases l' with
    | nil => cases hlen
    | cons r' l' =>
      rw [show r = r' from hhead, show l = l' from htail]

end Texts

section Kept

variable {csv : Csv} {rows : List Json}

def bareRoot : ToolContext := ⟨1, some (ofString "/")⟩

def bareFs : Fs := .ofEntries []

def tableInput (rows : List Json) : Json :=
  .object [("path".toList, .string "t.csv".toList), ("data".toList, .array rows)]

def tablePlace : Place := [ofString "t.csv"]

theorem resolve_bare : resolvePath bareFs (base bareRoot.rootPath) (utf8 "t.csv".toList) =
    .ok tablePlace := by decide

theorem createParent_bare :
    World.createParent ⟨bareFs, []⟩ tablePlace = (⟨bareFs, []⟩, .ok ()) := rfl

theorem lookup_bare : bareFs.lookup true (absolute tablePlace) false = .missing tablePlace := by
  decide

theorem resolve_written (content : List UInt8) :
    resolvePath (bareFs.put tablePlace (some (.file content))) (base bareRoot.rootPath)
      (utf8 "t.csv".toList) = .ok tablePlace := rfl

theorem lookup_written (content : List UInt8) :
    (bareFs.put tablePlace (some (.file content))).lookup true (absolute tablePlace) false =
      .found tablePlace := rfl

theorem csvWrite_bare (csv : Csv) (h : Even rows) :
    csvWrite csv bareRoot ⟨bareFs, []⟩ (tableInput rows) =
      (⟨bareFs.put tablePlace (some (.file (utf8 (csv.encode (records rows))))), [tablePlace]⟩,
        .ok ()) := by
  have hpath : (tableInput rows).getStr "path".toList = some "t.csv".toList := rfl
  have hrows : rowsOf (tableInput rows) = some rows := rfl
  have hwrite : World.write ⟨bareFs, []⟩ tablePlace (utf8 (csv.encode (records rows))) false =
      (⟨bareFs.put tablePlace (some (.file (utf8 (csv.encode (records rows))))), [tablePlace]⟩,
        .ok ()) := by
    rw [World.write, lookup_bare]
    rfl
  simp only [csvWrite, hpath, hrows, resolve_bare, createParent_bare, writeRecords_of_even h,
    hwrite, if_true]

theorem leadsTo_bare (content : List UInt8) (touched : List Place) :
    LeadsTo bareRoot ⟨bareFs.put tablePlace (some (.file content)), touched⟩ (tableInput rows)
      tablePlace :=
  ⟨⟨"t.csv".toList, tablePlace, rfl, resolve_written content, lookup_written content⟩, rfl⟩

theorem csvRead_written (hcsv : csv.Faithful) (heven : Even rows) {ctx : ToolContext} {w : World}
    {input : Json} {place : Place} (hleads : LeadsTo ctx w input place)
    (hnode : w.fs.node place = some (.file (utf8 (csv.encode (records rows))))) :
    (csvRead csv ctx w input).2 = .ok ⟨((records rows).map Lib.Csv.atLeastOne).headD [],
      ((records rows).map Lib.Csv.atLeastOne).tail⟩ := by
  rw [csvRead_of_leadsTo hleads hnode, hcsv _ (evenRecords_iff.mpr heven), ← tableOf_ok,
    List.map_map]
  rfl

theorem textual_of_kept (hcsv : csv.Faithful) (h : Kept csv rows) : Textual rows := by
  intro heven
  obtain ⟨harrays, place, hplace, hread⟩ := h _ _ _ _ rfl (csvWrite_bare csv heven)
  obtain rfl : tablePlace = place := Option.some.inj hplace
  refine ⟨harrays, fun table htable => (table_iff htable).mp ?_⟩
  have hleads : LeadsTo bareRoot _ (tableInput rows) tablePlace :=
    leadsTo_bare (utf8 (csv.encode (records rows))) [tablePlace]
  have hfound := hread table htable _ _ hleads
  rw [csvRead_written hcsv heven hleads (Fs.put_self _)] at hfound
  obtain ⟨hheaders, hrest⟩ := Table.mk.inj (Except.ok.inj hfound)
  refine eq_of_headD_tail ?_ hheaders hrest
  rw [List.length_map, length_of_mapM htable]

theorem kept_of_textual (hcsv : csv.Faithful) (h : Textual rows) : Kept csv rows := by
  intro ctx w input w' hrows hwrite
  obtain ⟨heven, place, hplace, hnode⟩ := csvWrite_ok hrows hwrite
  obtain ⟨harrays, htexts⟩ := h heven
  refine ⟨harrays, place, hplace, fun table htable ctx' input' hleads => ?_⟩
  rw [csvRead_written hcsv heven hleads hnode, (table_iff htable).mpr (htexts table htable)]

/-- The format itself, with the check for the lengths. -/
def plainCsv : Csv where
  encode := Lib.Csv.write ','
  parse delim content :=
    let read := Lib.Csv.read (Char.ofNat delim.toNat) content
    read.map fun r => if some r.length = read.head?.map List.length then .ok r
      else .error "found record with a different number of fields".toList

theorem length_atLeastOne (r : List Text) : (Lib.Csv.atLeastOne r).length = max r.length 1 := by
  cases r with
  | nil => rfl
  | cons t r =>
    rw [Lib.Csv.atLeastOne, if_neg (List.cons_ne_nil t r), List.length_cons]
    omega

theorem plainCsv_faithful : plainCsv.Faithful := by
  intro records heven
  have hread : Lib.Csv.read (Char.ofNat (UInt8.ofNat ','.toNat).toNat) (plainCsv.encode records) =
      records.map Lib.Csv.atLeastOne := Lib.Csv.read_write (by decide) (by decide) records
  show (Lib.Csv.read _ _).map _ = _
  rw [hread, List.map_map]
  refine List.map_congr_left fun r hr => if_pos ?_
  cases records with
  | nil => cases hr
  | cons first records =>
    show some (Lib.Csv.atLeastOne r).length = some (Lib.Csv.atLeastOne first).length
    rw [length_atLeastOne, length_atLeastOne, heven r hr first List.mem_cons_self]

/-- **The tables that are kept are those of texts.** -/
theorem tables_kept_iff (hcsv : csv.Faithful) (rows : List Json) : Kept csv rows ↔ Textual rows :=
  ⟨textual_of_kept hcsv, kept_of_textual hcsv⟩

def texts (cells : List String) : Json := .array (cells.map fun cell => .string cell.toList)

theorem kept_people : Kept plainCsv [texts ["name", "city"], texts ["John, \"Jr.\"", "NYC"]] := by
  refine (tables_kept_iff plainCsv_faithful _).mpr fun _ => ⟨?_, fun _ _ => ?_⟩
  · exact List.forall_mem_cons.mpr ⟨⟨_, rfl⟩, List.forall_mem_singleton.mpr ⟨_, rfl⟩⟩
  · exact List.forall_mem_cons.mpr ⟨⟨["name".toList, "city".toList], by decide, rfl⟩,
      List.forall_mem_singleton.mpr ⟨["John, \"Jr.\"".toList, "NYC".toList], by decide, rfl⟩⟩

/-- A number leaves its cell empty. -/
theorem tables_not_kept : ¬ ∀ csv : Csv, csv.Faithful → ∀ rows, Kept csv rows := by
  intro h
  let ages : List Json := [texts ["age"], .array [.number "30".toList]]
  have heven : Even ages := by
    refine evenRecords_iff.mp ?_
    decide
  have htable : ages.mapM rowTexts = some [["age".toList], ["30".toList]] := rfl
  have htexts := (textual_of_kept plainCsv_faithful (h plainCsv plainCsv_faithful ages) heven).2 _
    htable _ (List.mem_cons_of_mem _ List.mem_cons_self)
  obtain ⟨fields, -, heq⟩ := htexts
  cases fields with
  | nil => cases heq
  | cons field fields => cases heq

end Kept

end Mowis.Tools.Tables
