import Chip8.CommandLine.Parse
import Chip8.CommandLine.Usage
import Chip8.Live
import Chip8.Main
import Chip8.Pacing.HostClock
import Chip8.Program
import Chip8.Terminal.Escape
import Chip8.Terminal.Input
import Chip8.Proofs.Execution
import Chip8.Proofs.InstructionWord
import Chip8.Proofs.Run
import Chip8.Proofs.Step
import Chip8.Proofs.Bounds
import Chip8.Proofs.Faults
import Chip8.Proofs.SkipAtOnce
import Chip8.Proofs.KeySources
import Chip8.Proofs.Scheduled
import Chip8.Proofs.ExitKey
import Chip8.Proofs.CallNesting
import Chip8.Proofs.Painting
import Chip8.Proofs.Teardown
import Chip8.Proofs.Ownership
import Chip8.Proofs.Isolation
import Chip8.Proofs.Dialects
import Chip8.Proofs.KeyHolds
import Chip8.Proofs.SpriteOrder
import Chip8.Proofs.SpriteTorus
import Chip8.Proofs.Listing
import Chip8.Proofs.RandomStream
import Chip8.Proofs.FlagArithmetic
import Chip8.Proofs.KeyWait
import Chip8.Proofs.WorkingDevices
import Chip8.Proofs.TerminalHandedBack
import Chip8.Proofs.MemoryCells
import Chip8.Proofs.RegisterBlocks
import Chip8.Proofs.DrawInstruction
import Chip8.Proofs.WholeFrames
import Chip8.Proofs.CalibrationFormula
import Chip8.Proofs.Deadlines
import Chip8.Proofs.Unlogged
import Chip8.Proofs.ProgramLoading
import Chip8.Proofs.PixelPoints
import Chip8.Proofs.PixelCells
import Chip8.Proofs.Spellings
import Chip8.Proofs.CommandLineReading
import Chip8.Proofs.RomNames
import Chip8.Proofs.LetterCase
import Chip8.Proofs.TypedKeys
import Chip8.Proofs.KeysAhead
import Chip8.Proofs.DryFrames
import Chip8.Proofs.WarningsOnly
import Chip8.Proofs.LiveRounds
import Chip8.Proofs.LiveRuns
