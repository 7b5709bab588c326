import Arbiter.Text.Unseen

/-! How values are written: in the reports, in the fields of the log, between quotes and as JSON. -/

namespace Arbiter.Text

/-! ### Blanks -/

/-- The characters with the Unicode property `White_Space`. -/
def isBlank (c : Char) : Bool :=
  let n := c.toNat
  (0x9 ≤ n && n ≤ 0xD) || n == 0x20 || n == 0x85 || n == 0xA0 || n == 0x1680 ||
    (0x2000 ≤ n && n ≤ 0x200A) || n == 0x2028 || n == 0x2029 || n == 0x202F ||
    n == 0x205F || n == 0x3000

def trimEnd (s : String) : String :=
  String.ofList (s.toList.reverse.dropWhile isBlank).reverse

def padLeft (width : Nat) (s : String) : String :=
  String.ofList (List.replicate (width - s.length) ' ') ++ s

/-! ### Log fields -/

/-- A value with named fields: the name, then the fields in braces. -/
def fields (name : String) (items : List (String × String)) : String :=
  name ++ " \x7b " ++ ", ".intercalate (items.map fun i => i.1 ++ ": " ++ i.2) ++ " \x7d"

def wrapped (name value : String) : String := name ++ "(" ++ value ++ ")"

def optional : Option String → String
  | none => "None"
  | some v => wrapped "Some" v

def bracketed (items : List String) : String := "[" ++ ", ".intercalate items ++ "]"

/-! ### Quotes -/

/-- The lower-case hexadecimal digits of a number, without leading zeros. -/
def hex (n : Nat) : String := String.ofList (Nat.toDigits 16 n)

/-- One character as it stands between quotes. One that would not show is written by its code. -/
def quotedChar (c : Char) : String :=
  match c with
  | '"' => "\\\""
  | '\\' => "\\\\"
  | '\n' => "\\n"
  | '\r' => "\\r"
  | '\t' => "\\t"
  | '\x00' => "\\0"
  | _ => if isUnseen c then "\\u\x7b" ++ hex c.toNat ++ "\x7d" else c.toString

def quoted (s : String) : String :=
  "\"" ++ String.join (s.toList.map quotedChar) ++ "\""

/-! ### JSON

Compact. Only quotes, backslashes and the controls below the space are escaped. -/

namespace Json

def escapedChar (c : Char) : String :=
  match c with
  | '"' => "\\\""
  | '\\' => "\\\\"
  | '\n' => "\\n"
  | '\r' => "\\r"
  | '\t' => "\\t"
  | '\x08' => "\\b"
  | '\x0c' => "\\f"
  | _ =>
    if c.toNat < 0x10 then "\\u000" ++ hex c.toNat
    else if c.toNat < 0x20 then "\\u00" ++ hex c.toNat
    else c.toString

def string (s : String) : String :=
  "\"" ++ String.join (s.toList.map escapedChar) ++ "\""

def optional : Option String → String
  | none => "null"
  | some s => string s

def bool (b : Bool) : String := if b then "true" else "false"

def array (items : List String) : String := "[" ++ ",".intercalate items ++ "]"

/-- An object whose fields stand in the given order. -/
def object (items : List (String × String)) : String :=
  "\x7b" ++ ",".intercalate (items.map fun i => string i.1 ++ ":" ++ i.2) ++ "\x7d"

end Json

end Arbiter.Text
