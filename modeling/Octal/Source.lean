import Octal.Error
import Octal.Text.Rune

/-!
# Sources

The text of one evaluation, and how it ends. A source read from a failing reader is cut off: its
text is what was delivered before the failure.
-/

namespace Octal

inductive Ending where
  | complete
  | cutOff (cause : Error)
deriving DecidableEq, Repr

structure Source where
  text : Bytes
  ending : Ending
deriving DecidableEq, Repr

namespace Source

def complete (text : Bytes) : Source := ⟨text, .complete⟩

def ofString (s : String) : Source := complete (Bytes.ofString s)

/-- The first `n` bytes of `text`, delivered by a reader that then fails with `cause`. -/
def cutAt (n : Nat) (cause : Error) (text : Bytes) : Source := ⟨text.take n, .cutOff cause⟩

end Source

end Octal
