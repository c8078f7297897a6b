import ChainFetch.Binary64.Text
import ChainFetch.Json
/-!
Writing JSON text without blanks. Control characters, quotes and backslashes are escaped; all other
characters stand for themselves.
-/

namespace ChainFetch.Json

def hexDigit (n : Nat) : Char :=
  if n < 10 then Char.ofNat (48 + n) else Char.ofNat (87 + n)

def escape (c : Char) : List Char :=
  if c = '"' then ['\\', '"']
  else if c = '\\' then ['\\', '\\']
  else if c = '\n' then ['\\', 'n']
  else if c = '\r' then ['\\', 'r']
  else if c = '\t' then ['\\', 't']
  else if c = '\x08' then ['\\', 'b']
  else if c = '\x0c' then ['\\', 'f']
  else if c.toNat < 32 then ['\\', 'u', '0', '0', hexDigit (c.toNat / 16), hexDigit (c.toNat % 16)]
  else [c]

def quoted (s : String) : String := "\"" ++ String.ofList (s.toList.flatMap escape) ++ "\""

mutual

def writeTo (acc : String) : Json → String
  | null => acc ++ "null"
  | bool b => acc ++ (if b then "true" else "false")
  | int n => acc ++ toString n
  | real x => acc ++ x.write
  | text s => acc ++ quoted s
  | list [] => acc ++ "[]"
  | list (j :: js) => writeItemsTo (writeTo (acc.push '[') j) js
  | object [] => acc ++ "\x7b\x7d"
  | object ((n, j) :: fs) => writeFieldsTo (writeTo (acc.push '{' ++ quoted n ++ ":") j) fs

def writeItemsTo (acc : String) : List Json → String
  | [] => acc.push ']'
  | j :: js => writeItemsTo (writeTo (acc.push ',') j) js

def writeFieldsTo (acc : String) : List (String × Json) → String
  | [] => acc.push '}'
  | (n, j) :: fs => writeFieldsTo (writeTo (acc.push ',' ++ quoted n ++ ":") j) fs

end

def write (j : Json) : String := writeTo "" j

example : write (list [int (-5), null, text "a\"\n"]) = "[-5,null,\"a\\\"\\n\"]" := by
  decide +kernel

end ChainFetch.Json
