import PolicyVault.Text.Numeral
import PolicyVault.Text.Unprintable

/-!
# Quoted characters and texts

A quoted character stands between single quotes and a quoted text between double ones. Inside,
the quote in use and the backslash are escaped, four controls have letters of their own, and
what is not shown is written by its number.
-/

namespace PolicyVault.Text

def escaped (quote : Char) (c : Char) : List Char :=
  if c = '\x00' then ['\\', '0']
  else if c = '\t' then ['\\', 't']
  else if c = '\r' then ['\\', 'r']
  else if c = '\n' then ['\\', 'n']
  else if c = '\\' ∨ c = quote then ['\\', c]
  else if isUnprintable c then ['\\', 'u', '\x7b'] ++ hexDigits c.toNat ++ ['\x7d']
  else [c]

def quotedChar (c : Char) : String :=
  String.ofList ('\'' :: escaped '\'' c ++ ['\''])

def quotedText (text : String) : String :=
  String.ofList ('"' :: text.toList.flatMap (escaped '"') ++ ['"'])

end PolicyVault.Text
