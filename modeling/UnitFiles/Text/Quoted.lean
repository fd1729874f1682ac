import UnitFiles.Text.CaseTables
import UnitFiles.Text.PlainTable

/-! Text between quotation marks, as messages show it: what would not print as itself is escaped. -/
namespace UnitFiles.Text

/-- An open and a close brace; they surround the digits of an escaped character. -/
def braced (s : List Char) : List Char := '\x7b' :: s ++ ['\x7d']

def escapeChar (c : Char) : List Char :=
  if c = '\x00' then ['\\', '0']
  else if c = '\t' then ['\\', 't']
  else if c = '\r' then ['\\', 'r']
  else if c = '\n' then ['\\', 'n']
  else if c = '"' then ['\\', '"']
  else if c = '\\' then ['\\', '\\']
  else if inRanges plainRanges c.toNat then [c]
  else '\\' :: 'u' :: braced (Nat.toDigits 16 c.toNat)

def quoted (s : String) : String :=
  String.ofList ('"' :: s.toList.flatMap escapeChar ++ ['"'])

end UnitFiles.Text
