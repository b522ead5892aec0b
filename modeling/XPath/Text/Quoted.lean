import XPath.Text.Printable

/-! Text in double quotes, with escapes for quotes, backslashes and characters that do not print. -/
namespace XPath.Quoted

def escape (c : Char) : List Char :=
  if c = '"' then ['\\', '"']
  else if c = '\\' then ['\\', '\\']
  else if c = '\n' then ['\\', 'n']
  else if c = '\r' then ['\\', 'r']
  else if c = '\t' then ['\\', 't']
  else if c = '\x00' then ['\\', '0']
  else if Printable.isPrintable c then [c]
  else ['\\', 'u', '\x7b'] ++ Nat.toDigits 16 c.toNat ++ ['\x7d']

def encode (s : String) : String := String.ofList ('"' :: s.toList.flatMap escape ++ ['"'])

end XPath.Quoted
