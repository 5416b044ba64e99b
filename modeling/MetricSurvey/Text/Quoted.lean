/-
Text between double quotes.

A quote, a backslash and the five common control characters are written with a backslash and a letter of their own, every
other character below U+0020 as `\u00` and two hexadecimal digits, and nothing else is changed.
-/
import MetricSurvey.Text.Hexadecimal

namespace MetricSurvey.Quoted

/-- the letter that stands for a character behind a backslash -/
def shortEscape (c : Char) : Option Char :=
  if c = '"' then some '"'
  else if c = '\\' then some '\\'
  else if c = '\x08' then some 'b'
  else if c = '\x0c' then some 'f'
  else if c = '\n' then some 'n'
  else if c = '\r' then some 'r'
  else if c = '\t' then some 't'
  else none

def encodeChar (c : Char) : List Char :=
  match shortEscape c with
  | some e => ['\\', e]
  | none =>
    if c.toNat < 0x20 then ['\\', 'u', '0', '0'] ++ Hexadecimal.byte c.toNat
    else [c]

/-- the text in quotes -/
def encode (s : String) : String := String.ofList ('"' :: s.toList.flatMap encodeChar ++ ['"'])

end MetricSurvey.Quoted
