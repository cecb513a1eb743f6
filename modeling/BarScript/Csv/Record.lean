import BarScript.Text.Bytes

/-!
# Records of comma-separated values

A text of comma-separated values is a list of records, each on lines of its own, and a record is a
list of fields with commas between them. A field that starts with a quote goes on to the next quote
that stands alone, whatever is in between; a quote in it is written twice. `Csv.records` reads the
records of a text and `Csv.line` writes one. Empty lines are skipped.
-/

namespace BarScript.Csv

/-- A record with the place at which the search for it began: that is behind the record before it,
so in front of the empty lines that are skipped. -/
structure Record where
  fields : List String
  /-- How many records come before it. -/
  number : Nat
  /-- The line, counted from one. -/
  line : Nat
  /-- The byte offset. -/
  byte : Nat
  deriving DecidableEq, Repr

/-- A record ends at a line break. -/
def isBreak (c : Char) : Bool := c == '\n' || c == '\r'

/-- A field that is not in quotes ends at a comma or a line break. -/
def isPlain (c : Char) : Bool := c != ',' && !isBreak c

/-! ## Reading -/

/-- A field that is not in quotes, and what follows it. -/
def plainField (cs : List Char) : List Char × List Char :=
  (cs.takeWhile isPlain, cs.dropWhile isPlain)

/-- A field behind its opening quote, and what follows it. Characters behind the closing quote still
belong to the field; a quote that is never closed takes the rest of the text. -/
def quotedField : List Char → List Char × List Char
  | [] => ([], [])
  | '"' :: '"' :: cs =>
    let (field, rest) := quotedField cs
    ('"' :: field, rest)
  | '"' :: cs => plainField cs
  | c :: cs =>
    let (field, rest) := quotedField cs
    (c :: field, rest)

/-- The field at the front of a text, and what follows it. -/
def field : List Char → List Char × List Char
  | '"' :: cs => quotedField cs
  | cs => plainField cs

theorem length_plainField_le (cs : List Char) : (plainField cs).2.length ≤ cs.length := by
  exact (List.dropWhile_sublist isPlain).length_le

theorem length_quotedField_le (cs : List Char) : (quotedField cs).2.length ≤ cs.length := by
  fun_induction quotedField cs with
  | case1 => simp
  | case2 cs field rest h ih => rw [h] at ih; simp at ih ⊢; omega
  | case3 cs => have := length_plainField_le cs; simp; omega
  | case4 c cs _ _ field rest h ih => rw [h] at ih; simp at ih ⊢; omega

theorem length_field_le (cs : List Char) : (field cs).2.length ≤ cs.length := by
  unfold field
  split
  · have := length_quotedField_le ‹List Char›; simp; omega
  · exact length_plainField_le cs

/-- The fields of the record at the front of a text, and what follows the last of them. -/
def fields (cs : List Char) : List String × List Char :=
  match h : field cs with
  | (f, ',' :: rest) =>
    have : rest.length < cs.length := by
      have := length_field_le cs
      simp [h] at this
      omega
    let (fs, rest) := fields rest
    (String.ofList f :: fs, rest)
  | (f, rest) => ([String.ofList f], rest)
termination_by cs.length

theorem length_fields_le (cs : List Char) : (fields cs).2.length ≤ cs.length := by
  fun_induction fields cs with
  | case1 cs f rest h lt fs rest' h' ih => rw [h'] at ih; simp at ih ⊢; omega
  | case2 cs f rest _ h => have := length_field_le cs; rw [h] at this; exact this

/-- The records of a text, the first of which is the record `number` and is looked for from a given
line and byte on. -/
def recordsFrom (number line byte : Nat) (cs : List Char) : List Record :=
  match h : cs.dropWhile isBreak with
  | [] => []
  | c :: r =>
    let next := (fields (c :: r)).2.drop 1
    have : next.length < cs.length := by
      have h₁ := length_fields_le (c :: r)
      have h₂ := (List.dropWhile_sublist (l := cs) isBreak).length_le
      simp only [h, List.length_cons, next, List.length_drop] at h₁ h₂ ⊢
      omega
    let consumed := cs.take (cs.length - next.length)
    ⟨(fields (c :: r)).1, number, line, byte⟩ ::
      recordsFrom (number + 1) (line + consumed.count '\n') (byte + Text.byteSize consumed) next
termination_by cs.length
decreasing_by exact this

/-- The records of a text. A byte order mark at its beginning is left out. -/
def records (text : String) : List Record :=
  match text.toList with
  | '\ufeff' :: cs => recordsFrom 0 1 3 cs
  | cs => recordsFrom 0 1 0 cs

/-- What a record that does not have `expected` fields is reported with. -/
def Record.lengthMessage (r : Record) (expected : Nat) : String :=
  let found := r.fields.length
  s!"CSV error: record {r.number} (line: {r.line}, byte: {r.byte}): found record with {found} fields, but the previous record has {expected} fields"

/-! ## Writing -/

/-- The characters that a field can only have in quotes. -/
def needsQuotes (c : Char) : Bool := c == '"' || !isPlain c

/-- A text in quotes, with the quotes in it doubled. -/
def quoted (cs : List Char) : List Char :=
  '"' :: cs.flatMap (fun c => if c = '"' then ['"', '"'] else [c]) ++ ['"']

/-- How a field is written. -/
def fieldText (s : String) : List Char :=
  if s.toList.any needsQuotes then quoted s.toList else s.toList

/-- How a record is written. A record of one empty field is in quotes, since an empty line is no
record. -/
def line (fields : List String) : String :=
  match (fields.map fieldText).intersperse [','] |>.flatten with
  | [] => "\"\"\n"
  | cs => String.ofList (cs ++ ['\n'])

end BarScript.Csv
