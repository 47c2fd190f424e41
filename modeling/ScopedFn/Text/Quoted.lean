import ScopedFn.Text.Padded
import ScopedFn.Text.Printable
import ScopedFn.Text.Surrogate

/-!
# Quoted text

A text between quotation marks, as it appears inside displayed values and messages: backslash,
the quotation mark and unprintable characters are escaped. Bytes are quoted the same way, with
every byte outside printable ASCII escaped.
-/

set_option autoImplicit false

namespace ScopedFn.Text

/-- Single quotation marks, unless the text holds one and no double mark. -/
def quoteFor (cs : List Char) : Char :=
  if cs.contains '\'' && !cs.contains '"' then '"' else '\''

/-- A character between the quotation marks `quote`. -/
def quoteChar (quote c : Char) : List Char :=
  if c == quote || c == '\\' then ['\\', c]
  else if c == '\t' then ['\\', 't']
  else if c == '\n' then ['\\', 'n']
  else if c == '\r' then ['\\', 'r']
  else if isPrintable c then [c]
  else if c.toNat ≤ 0xff then '\\' :: 'x' :: digitsPadded 16 2 c.toNat
  else if c.toNat ≤ 0xffff then '\\' :: 'u' :: digitsPadded 16 4 c.toNat
  else '\\' :: 'U' :: digitsPadded 16 8 c.toNat

/-- The text in quotation marks. -/
def quoted (s : String) : String :=
  let cs := s.toList
  let quote := quoteFor cs
  String.ofList (quote :: cs.flatMap (quoteChar quote) ++ [quote])

/-- A text with stand-ins in quotation marks; a stand-in is escaped as the surrogate. -/
def quotedTorn (s : String) : String :=
  let cs := s.toList
  let quote := quoteFor cs
  let quoteTorn (c : Char) : List Char :=
    if isStandIn c then '\\' :: 'u' :: digitsPadded 16 4 (surrogateOf c) else quoteChar quote c
  String.ofList (quote :: cs.flatMap quoteTorn ++ [quote])

/-- A byte between the quotation marks `quote`. -/
def quoteByte (quote : Char) (b : UInt8) : List Char :=
  let c := Char.ofNat b.toNat
  if b < 0x80 then quoteChar quote c else '\\' :: 'x' :: digitsPadded 16 2 b.toNat

/-- Bytes in quotation marks, marked by a leading `b`. -/
def quotedBytes (bytes : List UInt8) : String :=
  let quote := quoteFor (bytes.map fun b => Char.ofNat b.toNat)
  String.ofList ('b' :: quote :: bytes.flatMap (quoteByte quote) ++ [quote])

end ScopedFn.Text
