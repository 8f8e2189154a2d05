import ProcRecovery.Journal.Record

/-!
# The text of a log

A log file holds one JSON object for each record.
-/

namespace ProcRecovery.CommandLine

/-- The form of a character in a JSON string. -/
def jsonChar (char : Char) : List Char :=
  if char = '"' then ['\\', '"']
  else if char = '\\' then ['\\', '\\']
  else if char = '\n' then ['\\', 'n']
  else if char = '\r' then ['\\', 'r']
  else if char = '\t' then ['\\', 't']
  else if char.toNat < 0x20 then ['\\', 'u'] ++ Numeral.padded 16 4 char.toNat
  else [char]

/-- A JSON string. -/
def jsonString (text : String) : String :=
  String.ofList ('"' :: text.toList.flatMap jsonChar ++ ['"'])

/-- A named value of a JSON object. -/
def jsonField (field : String × LogValue) : String :=
  jsonString field.1 ++ ":" ++
    (match field.2 with
      | .text content => jsonString content
      | .number value => Numeral.signedDecimal value)

/-- The JSON object of a record. -/
def recordText (record : LogRecord) : String :=
  let fields :=
    ("msg", LogValue.text record.message) ::
      ("level", .text record.severity.tag) ::
      record.fields
  "\x7b" ++ String.intercalate "," (fields.map jsonField) ++ "\x7d\n"

/-- The text of a log. -/
def logText (records : List LogRecord) : String :=
  String.join (records.map recordText)

end ProcRecovery.CommandLine
