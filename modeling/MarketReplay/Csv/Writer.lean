/-!
# Writing comma-separated text

A field is quoted where it holds a comma, a quote or a line end; a quote inside is doubled. Each
record ends with a newline.
-/

namespace MarketReplay.Csv

/-- Whether a field needs quotes. -/
def needsQuotes (field : String) : Bool :=
  field.toList.any fun c => c == ',' || c == '"' || c == '\r' || c == '\n'

/-- The written form of a field. -/
def fieldText (field : String) : String :=
  if needsQuotes field then
    "\"" ++ String.join (field.toList.map fun c => if c = '"' then "\"\"" else c.toString) ++ "\""
  else field

/-- The written form of a record; a lone empty field is quoted. -/
def recordText (fields : List String) : String :=
  match fields with
  | [""] => "\"\"\n"
  | fields => ",".intercalate (fields.map fieldText) ++ "\n"

/-- The written form of a table. -/
def tableText (rows : List (List String)) : String := String.join (rows.map recordText)

end MarketReplay.Csv
