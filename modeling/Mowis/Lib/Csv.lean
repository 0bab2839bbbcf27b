import Mowis.Lib.Text

/-!
# Comma-separated values

Records of fields as they are written one a line, with quotes where a field needs them, and a reader
that goes through the text character by character.
-/

namespace Mowis.Lib.Csv

def isLineEnd (c : Char) : Bool := c = '\n' || c = '\r'

def isSpecial (delim c : Char) : Bool := c = delim || c = '"' || isLineEnd c

def escape (field : Text) : Text := field.flatMap fun c => if c = '"' then ['"', '"'] else [c]

def writeField (delim : Char) (field : Text) : Text :=
  if field.any (isSpecial delim) then '"' :: (escape field ++ ['"']) else field

def writeFields (delim : Char) : List Text → Text
  | [] => []
  | [field] => writeField delim field
  | field :: fields => writeField delim field ++ delim :: writeFields delim fields

def writeRecord (delim : Char) (record : List Text) : Text :=
  (if writeFields delim record = [] then ['"', '"'] else writeFields delim record) ++ ['\n']

def write (delim : Char) (records : List (List Text)) : Text := records.flatMap (writeRecord delim)

inductive Mode where
  | start
  | plain
  | quoted
  | quote
  deriving DecidableEq

structure Reader where
  records : List (List Text)
  record : List Text
  field : Text
  mode : Mode

namespace Reader

def endField (r : Reader) : Reader := ⟨r.records, r.record ++ [r.field], [], .start⟩

def endRecord (r : Reader) : Reader := ⟨r.records ++ [r.record ++ [r.field]], [], [], .start⟩

def push (r : Reader) (c : Char) (mode : Mode) : Reader :=
  ⟨r.records, r.record, r.field ++ [c], mode⟩

def Blank (r : Reader) : Prop := r.mode = .start ∧ r.record = []

instance (r : Reader) : Decidable r.Blank := inferInstanceAs (Decidable (_ ∧ _))

def outside (delim : Char) (r : Reader) (c : Char) : Reader :=
  if c = delim then r.endField
  else if isLineEnd c then if r.Blank then r else r.endRecord
  else r.push c .plain

def step (delim : Char) (r : Reader) (c : Char) : Reader :=
  match r.mode with
  | .start => if c = '"' then { r with mode := .quoted } else r.outside delim c
  | .plain => r.outside delim c
  | .quoted => if c = '"' then { r with mode := .quote } else r.push c .quoted
  | .quote => if c = '"' then r.push '"' .quoted else r.outside delim c

def finish (r : Reader) : List (List Text) := if r.Blank then r.records else r.endRecord.records

end Reader

def read (delim : Char) (t : Text) : List (List Text) :=
  (t.foldl (Reader.step delim) ⟨[], [], [], .start⟩).finish

def atLeastOne (record : List Text) : List Text := if record = [] then [[]] else record

section RoundTrip

variable {delim : Char} {records : List (List Text)} {record : List Text} {field : Text}

theorem foldl_escape (t field : Text) :
    (escape t).foldl (Reader.step delim) ⟨records, record, field, .quoted⟩ =
      ⟨records, record, field ++ t, .quoted⟩ := by
  induction t generalizing field with
  | nil => simp [escape]
  | cons c t ih =>
    have hpush : (if c = '"' then ['"', '"'] else [c]).foldl (Reader.step delim)
        ⟨records, record, field, .quoted⟩ = ⟨records, record, field ++ [c], .quoted⟩ := by
      split_ifs with hc
      · rw [hc]
        rfl
      · simp [Reader.step, hc, Reader.push]
    show ((if c = '"' then ['"', '"'] else [c]) ++ escape t).foldl _ _ = _
    rw [List.foldl_append, hpush, ih, List.append_assoc, List.singleton_append]

theorem outside_plain {c : Char} (hc : isSpecial delim c = false) (r : Reader) :
    r.outside delim c = r.push c .plain := by
  simp only [isSpecial, Bool.or_eq_false_iff, decide_eq_false_iff_not] at hc
  rw [Reader.outside, if_neg hc.1.1, hc.2, if_neg Bool.false_ne_true]

theorem foldl_plain {t : Text} (ht : t.any (isSpecial delim) = false) (field : Text) :
    t.foldl (Reader.step delim) ⟨records, record, field, .plain⟩ =
      ⟨records, record, field ++ t, .plain⟩ := by
  induction t generalizing field with
  | nil => simp
  | cons c t ih =>
    rw [List.any_cons, Bool.or_eq_false_iff] at ht
    have hstep : Reader.step delim ⟨records, record, field, .plain⟩ c =
        ⟨records, record, field ++ [c], .plain⟩ := outside_plain ht.1 _
    rw [List.foldl_cons, hstep, ih ht.2, List.append_assoc, List.singleton_append]

theorem foldl_writeField (field : Text) : ∃ mode,
    (writeField delim field).foldl (Reader.step delim) ⟨records, record, [], .start⟩ =
      ⟨records, record, field, mode⟩ ∧ mode ≠ .quoted ∧
      (mode = .start → writeField delim field = []) := by
  unfold writeField
  split_ifs with hspecial
  · refine ⟨.quote, ?_, nofun, nofun⟩
    have hopen : Reader.step delim ⟨records, record, [], .start⟩ '"' =
        ⟨records, record, [], .quoted⟩ := rfl
    rw [List.foldl_cons, hopen, List.foldl_append, foldl_escape]
    rfl
  · rw [Bool.not_eq_true] at hspecial
    cases field with
    | nil => exact ⟨.start, rfl, nofun, fun _ => rfl⟩
    | cons c t =>
      refine ⟨.plain, ?_, nofun, nofun⟩
      rw [List.any_cons, Bool.or_eq_false_iff] at hspecial
      have hquote : c ≠ '"' := by
        rintro rfl
        simp [isSpecial] at hspecial
      have hstep : Reader.step delim ⟨records, record, [], .start⟩ c =
          ⟨records, record, [c], .plain⟩ := by
        show (if c = '"' then _ else Reader.outside delim _ c) = _
        rw [if_neg hquote, outside_plain hspecial.1]
        rfl
      rw [List.foldl_cons, hstep, foldl_plain hspecial.2, List.singleton_append]

variable (hquote : delim ≠ '"') (hline : isLineEnd delim = false)

include hquote in
theorem step_delim {r : Reader} (h : r.mode ≠ .quoted) : r.step delim delim = r.endField := by
  have houtside : r.outside delim delim = r.endField := if_pos rfl
  unfold Reader.step
  split
  · rw [if_neg hquote, houtside]
  · exact houtside
  · next hmode => exact absurd hmode h
  · rw [if_neg hquote, houtside]

include hline in
theorem step_newline {r : Reader} (h : r.mode ≠ .quoted) (hblank : ¬ r.Blank) :
    r.step delim '\n' = r.endRecord := by
  have hne : '\n' ≠ delim := by
    rintro rfl
    cases hline
  have houtside : r.outside delim '\n' = r.endRecord := by
    rw [Reader.outside, if_neg hne]
    show (if r.Blank then r else r.endRecord) = r.endRecord
    rw [if_neg hblank]
  unfold Reader.step
  split
  · exact houtside
  · exact houtside
  · next hmode => exact absurd hmode h
  · exact houtside

include hquote hline

theorem foldl_writeFields (fields : List Text) (hfields : fields ≠ [])
    (hne : record = [] → writeFields delim fields ≠ []) :
    (writeFields delim fields ++ ['\n']).foldl (Reader.step delim) ⟨records, record, [], .start⟩ =
      ⟨records ++ [record ++ fields], [], [], .start⟩ := by
  induction fields generalizing record with
  | nil => exact absurd rfl hfields
  | cons field fields ih =>
    obtain ⟨mode, hfield, hmode, hstart⟩ :=
      @foldl_writeField delim records record field
    cases fields with
    | nil =>
      have hblank : ¬ Reader.Blank ⟨records, record, field, mode⟩ :=
        fun h => hne h.2 (hstart h.1)
      rw [writeFields, List.foldl_append, hfield, List.foldl_cons, step_newline hline hmode hblank]
      rfl
    | cons next fields =>
      have hrest := @ih (record ++ [field]) (List.cons_ne_nil _ _) fun hnil =>
        absurd hnil (List.append_ne_nil_of_right_ne_nil _ (List.cons_ne_nil _ _))
      rw [writeFields, List.append_assoc, List.foldl_append, hfield, List.cons_append,
        List.foldl_cons, step_delim hquote hmode]
      · rw [List.append_assoc, List.singleton_append] at hrest
        exact hrest
      · exact List.cons_ne_nil _ _

theorem foldl_writeRecord (record : List Text) :
    (writeRecord delim record).foldl (Reader.step delim) ⟨records, [], [], .start⟩ =
      ⟨records ++ [atLeastOne record], [], [], .start⟩ := by
  unfold writeRecord
  split_ifs with hempty
  · -- the quotes are read as an empty field
    have hrecord : atLeastOne record = [[]] := by
      cases record with
      | nil => rfl
      | cons field fields =>
        cases fields with
        | nil =>
          rw [writeFields, writeField] at hempty
          split_ifs at hempty
          rw [hempty]
          rfl
        | cons next fields =>
          rw [writeFields] at hempty
          · simp at hempty
          · exact List.cons_ne_nil _ _
    rw [hrecord]
    exact step_newline (r := ⟨records, [], [], .quote⟩) hline nofun (fun h => nomatch h.1)
  · have hne : record ≠ [] := by
      rintro rfl
      exact hempty rfl
    rw [foldl_writeFields hquote hline record hne fun _ => hempty, atLeastOne, if_neg hne]
    rfl

/-- **The reader finds the records that were written.** -/
theorem read_write (records : List (List Text)) :
    read delim (write delim records) = records.map atLeastOne := by
  have hall : ∀ before : List (List Text),
      (write delim records).foldl (Reader.step delim) ⟨before, [], [], .start⟩ =
        ⟨before ++ records.map atLeastOne, [], [], .start⟩ := by
    induction records with
    | nil => simp [write]
    | cons record records ih =>
      intro before
      show (writeRecord delim record ++ write delim records).foldl _ _ = _
      rw [List.foldl_append, foldl_writeRecord hquote hline, ih, List.append_assoc]
      rfl
  rw [read, hall]
  exact if_pos ⟨rfl, rfl⟩

end RoundTrip

end Mowis.Lib.Csv
