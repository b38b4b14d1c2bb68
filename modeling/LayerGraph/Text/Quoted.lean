import LayerGraph.Text.Printable

/-! Text in quotes, with everything unprintable escaped. -/

namespace LayerGraph.Text

def hex (n : Nat) : String := String.ofList (Nat.toDigits 16 n)

/-- A character inside quotes: common controls by letter, other unprintable ones by number. -/
def escapeChar (c : Char) : String :=
  match c with
  | '\x00' => "\\0"
  | '\t' => "\\t"
  | '\n' => "\\n"
  | '\r' => "\\r"
  | '\"' => "\\\""
  | '\\' => "\\\\"
  | c => if isPrintable c then c.toString else "\\u\x7b" ++ hex c.toNat ++ "\x7d"

def quoted (text : String) : String :=
  "\"" ++ String.join (text.toList.map escapeChar) ++ "\""

end LayerGraph.Text
