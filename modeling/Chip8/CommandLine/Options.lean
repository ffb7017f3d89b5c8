import Chip8.Config
import Chip8.RomName

/-!
# Options

What a command line says, once it is understood, and the configuration that
follows from it: the dialect is made of the switches that are named and those that
the name of the program file asks for.
-/

namespace Chip8

/-- What a command line says. -/
structure Options where
  /-- The path of the program. -/
  rom : String
  cycles : Nat := 20
  /-- The switches that are named. -/
  dialect : Dialect := {}
  seed : Option UInt64 := none
  busyWait : Bool := false
  /-- Where the log goes, if it goes to a file. -/
  logFile : Option String := none
  deriving DecidableEq, Repr, Inhabited

namespace Options

/-- The configuration of a run with these options. -/
def config (o : Options) : Config where
  cycles := o.cycles
  dialect := o.dialect ∪ Dialect.ofRomName (Bytes.ofString o.rom)
  pacing := if o.busyWait then .busyLoop else .sleep
  seed := o.seed

end Options

end Chip8
