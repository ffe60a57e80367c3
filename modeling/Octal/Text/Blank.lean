import Octal.Text.Rune

/-!
# White space

The white-space characters, and the two ways text is cut at them: `trim` takes them off both ends
and `words` splits at every run of them.
-/

namespace Octal.Text

def isBlank (c : Char) : Bool :=
  let n := c.toNat
  (0x9 ≤ n && n ≤ 0xD) || n == 0x20 || n == 0x85 || n == 0xA0 || n == 0x1680 ||
    (0x2000 ≤ n && n ≤ 0x200A) || n == 0x2028 || n == 0x2029 || n == 0x202F || n == 0x205F ||
    n == 0x3000

/-- `xs` without the elements satisfying `p` at its two ends. -/
def strip {α : Type} (p : α → Bool) (xs : List α) : List α :=
  ((xs.dropWhile p).reverse.dropWhile p).reverse

/-- The characters of `cs` without surrounding white space. -/
def trimChars (cs : List Char) : List Char := strip isBlank cs

def trimString (s : String) : String := String.ofList (trimChars s.toList)

/-- `text` without surrounding white space. -/
def trim (text : Bytes) : Bytes := Rune.encode (strip (fun r => isBlank r.char) (Rune.decode text))

/-- The maximal runs of elements not satisfying `p`, in order; `run` is the one being read,
last element first. -/
def splitRuns {α : Type} (p : α → Bool) (run : List α) : List α → List (List α)
  | [] => if run.isEmpty then [] else [run.reverse]
  | x :: xs =>
    if p x then
      if run.isEmpty then splitRuns p [] xs else run.reverse :: splitRuns p [] xs
    else splitRuns p (x :: run) xs

/-- The words of `text`, separated by white space. -/
def words (text : Bytes) : List (List Rune) :=
  splitRuns (fun r => isBlank r.char) [] (Rune.decode text)

end Octal.Text
