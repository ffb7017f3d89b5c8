import Chip8.Terminal.KeyReader
import Chip8.Terminal.Screen

/-!
# Taking keys from a terminal

Whoever wants the keys of a terminal takes them over, which switches raw mode on,
and switches it off again in the end. Keys that were typed and not read stay for
the next one. Whenever the mode changes, the terminal tells anew of bytes that were
not taken up.
-/

namespace Chip8.Terminal

/-- A terminal and the keys that were typed on it. -/
structure Input where
  terminal : Terminal := {}
  reader : KeyReader := { raw := false }
  /-- Whether somebody has taken the keys over. -/
  taken : Bool := false
  deriving DecidableEq, Repr, Inhabited

namespace Input

/-- Switch raw mode. -/
def setRaw (i : Input) (on : Bool) : Input :=
  if i.terminal.raw = on then i
  else { i with terminal := i.terminal.apply (.setRaw on), reader := i.reader.switchMode on }

/-- Keys are typed. -/
def type (i : Input) (bytes : List UInt8) : Input := { i with reader := i.reader.type bytes }

/-- Give the keys back, if they were taken. -/
def close (i : Input) : Input := if i.taken then { i.setRaw false with taken := false } else i

/-- Take the keys over. Who had them before gives them back only afterwards. -/
def takeOver (i : Input) : Input := { (i.setRaw true).close with taken := true }

/-- Look once for a key. -/
def poll (i : Input) : Option UInt8 × Input :=
  let (code, reader) := i.reader.poll
  (code, { i with reader })

/-- Read keys until one gives a code. -/
def read (i : Input) : Option UInt8 × Input :=
  let (code, reader) := i.reader.read
  (code, { i with reader })

end Input

end Chip8.Terminal
