/-
# Printable text

Telling text from other data: text is UTF-8 throughout, and its start holds no control byte but
those that lay out text.
-/

import Fleet.Text.Utf8

namespace Fleet.Text

/-- How many bytes are looked at for control bytes. -/
def inspected : Nat := 8000

/-- Whether a byte may stand in text: tab, line feed, form feed, carriage return and escape are the
control bytes that may. -/
def isTextByte (b : UInt8) : Bool := b ≥ 0x20 || [0x09, 0x0a, 0x0c, 0x0d, 0x1b].contains b

/-- Whether bytes are text. -/
def isPrintable (b : Bytes) : Bool := (Utf8.text? b).isSome && (b.take inspected).all isTextByte

end Fleet.Text
