import JointAnalysis.Text.Hidden

/-!
# Quoted characters and strings

A quoted text stands between two equal quotation marks. Inside it the mark itself and the backslash
are escaped, the common controls have a letter of their own, and a hidden character is named by its
code point in hexadecimal. The other quotation mark stands for itself.
-/

namespace JointAnalysis.Text

/-- A code point named in hexadecimal. -/
def codePoint (c : Char) : List Char :=
  ['\\', 'u', '{'] ++ Nat.toDigits 16 c.toNat ++ ['}']

/-- How one character is written between two marks `mark`. -/
def quoteChar (mark c : Char) : List Char :=
  if c = '\x00' then ['\\', '0']
  else if c = '\t' then ['\\', 't']
  else if c = '\r' then ['\\', 'r']
  else if c = '\n' then ['\\', 'n']
  else if c = '\\' || c = mark then ['\\', c]
  else if isHidden c then codePoint c
  else [c]

/-- A text between two marks `mark`. -/
def quoted (mark : Char) (text : List Char) : List Char :=
  mark :: (text.flatMap (quoteChar mark) ++ [mark])

end JointAnalysis.Text
