import Brainfuck.Text.Quoted
import Brainfuck.Time.Duration
import Brainfuck.Time.Layout

/-!
# RFC 3339

The text of a timestamp in a database: a date, a `T`, a time of day with a fraction that has no
trailing zeros, and an offset, which is `Z` for universal time.

## Main Definitions

* `Rfc3339.write` — the text of a timestamp
* `Rfc3339.read` — the timestamp of a text
* `Rfc3339.errorMessage` — the message for a text that has none
-/

namespace Brainfuck.Rfc3339

/-- The layout of the format. -/
def layout : Layout :=
  [([], .year), (text "-", .month), (text "-", .day), (text "T", .hour), (text ":", .minute),
    (text ":", .second), ([], .fraction), ([], .zone)]

/-- The text of an offset in minutes. -/
def writeOffset (offset : Int) : Bytes :=
  if offset = 0 then text "Z"
  else
    let size := offset.natAbs
    (if offset < 0 then text "-" else text "+") ++ paddedDecimal 2 (size / 60) ++ text ":" ++
      paddedDecimal 2 (size % 60)

/-- The text of a timestamp. -/
def write (t : Timestamp) : Bytes :=
  paddedDecimal 4 t.year ++ text "-" ++ paddedDecimal 2 t.month ++ text "-" ++
    paddedDecimal 2 t.day ++ text "T" ++ paddedDecimal 2 t.hour ++ text ":" ++
    paddedDecimal 2 t.minute ++ text ":" ++ paddedDecimal 2 t.second ++
    fractionText 9 t.nanosecond ++ writeOffset t.offset

/-- The timestamp of a text. -/
def read (value : Bytes) : Except ClockError Timestamp :=
  layout.read value

/-- The message for a text that denotes no timestamp. -/
def errorMessage (value : Bytes) : ClockError → Bytes
  | .mismatch expected rest =>
    text "parsing time " ++ quotedAscii value ++ text " as " ++ quotedAscii layout.toText ++
      text ": cannot parse " ++ quotedAscii rest ++ text " as " ++ quotedAscii expected
  | .outOfRange element =>
    text "parsing time " ++ quotedAscii value ++ text ": " ++ text element ++
      text " out of range"
  | .extraText rest =>
    text "parsing time " ++ quotedAscii value ++ text ": extra text: " ++ quotedAscii rest

end Brainfuck.Rfc3339
