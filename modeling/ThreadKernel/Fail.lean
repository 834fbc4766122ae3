import ThreadKernel.Errno
import ThreadKernel.Text.Quoted

/-!
# ThreadKernel.Fail

Failures that a caller can handle: an error number and a cause. Violated preconditions are not
failures; they are in `ThreadKernel.Fault`.

* `Fail`         — the failure and its display.
* `StorageError` — what reading a file can run into, with its text and number.
-/

namespace ThreadKernel

structure Fail where
  errno : Int
  cause : String
deriving DecidableEq, Repr, Inhabited

/-- The number, and the cause between quotes. -/
def Fail.display (f : Fail) : String := s!"Error {f.errno}: {Text.quoted f.cause}"

/-- An error of the operating system, known by its number, or any other, known by its text. -/
inductive StorageError where
  | system (code : Int)
  | other (text : String)
deriving DecidableEq, Repr

namespace StorageError

def text : StorageError → String
  | system code => s!"{Errno.text code} (os error {code})"
  | other text => text

/-- An error without a number of its own counts as an input or output error. -/
def errno : StorageError → Int
  | system code => code
  | other _ => Errno.inputOutput

def toFail (e : StorageError) : Fail := ⟨e.errno, s!"I/O error: {e.text}"⟩

end StorageError
end ThreadKernel
