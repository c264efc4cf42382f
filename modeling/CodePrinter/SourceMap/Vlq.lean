/-! Variable-length quantities: integers as runs of Base64 digits. -/
namespace CodePrinter.Vlq

def alphabet : List Char :=
  "ABCDEFGHIJKLMNOPQRSTUVWXYZabcdefghijklmnopqrstuvwxyz0123456789+/".toList

def base64 (n : Nat) : Char := alphabet.getD n 'A'

/-- A signed number as a 32-bit word, the sign in the lowest bit. -/
def word (n : Int) : Nat := 2 * n.natAbs % 0x100000000 + if n < 0 then 1 else 0

/-- The digits of a word in base 32, the lowest first; all but the last are marked by the sixth
bit. A word has at most `more + 1` digits. -/
def digits : (more : Nat) → Nat → List Nat
  | 0, w => [w % 32]
  | more + 1, w => if w < 32 then [w] else (w % 32 + 32) :: digits more (w / 32)

def encode (n : Int) : List Char := (digits 6 (word n)).map base64

end CodePrinter.Vlq
