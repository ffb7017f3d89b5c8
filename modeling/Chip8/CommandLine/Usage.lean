/-!
# Usage

What the program says when it is asked for help.
-/

namespace Chip8.CommandLine

/-- The help, line by line. -/
def usage : List String := [
  "Run a CHIP-8 program in the terminal",
  "",
  "Usage: chip8-tty [OPTIONS] <ROM>",
  "",
  "Arguments:",
  "  <ROM>  Program image to run",
  "",
  "Options:",
  "  -c, --cycles <CYCLES>  Instructions executed per 60Hz frame [default: 20]",
  "      --lsq              Shifts operate on VX in place",
  "      --stq              FX55/FX65 leave I unchanged",
  "      --vip              OR/AND/XOR reset VF",
  "      --jmp              BNNN jumps relative to VX instead of V0",
  "      --cry              Carry-flag write ordering (no observable effect)",
  "      --seed <SEED>      Seed for the random number instruction",
  "      --busy-wait        Pace frames with a calibrated busy loop instead of sleeping",
  "      --log-file <FILE>  Write log output to this file instead of stderr",
  "  -h, --help             Print help",
  "  -V, --version          Print version"]

end Chip8.CommandLine
