/-!
# Arguments

The forms that one argument of a command line can take. An argument that begins
with two hyphens is a long name, with a value behind an equals sign if there is
one; two hyphens alone say that only values follow. An argument that begins with
one hyphen and goes on is a short name; if it names a setting, the value may stand
right behind it or behind an equals sign. All else, a lone hyphen too, is a value.
-/

namespace Chip8.CommandLine

/-- A switch that is on when it is named. -/
inductive Switch where
  | shiftInPlace
  | keepIndex
  | resetFlag
  | jumpByDigit
  | carryOrder
  | busyWait
  deriving DecidableEq, Repr

/-- A setting that is named together with its value. -/
inductive Setting where
  | cycles
  | seed
  | logFile
  deriving DecidableEq, Repr

/-- What a name stands for. -/
inductive Meaning where
  | switch (s : Switch)
  | setting (s : Setting)
  | help
  | version
  | unknown
  deriving DecidableEq, Repr

/-- One argument, as far as it can be told by itself. -/
inductive Argument where
  /-- Only values follow. -/
  | onlyValues
  /-- A name, and the value that is attached to it. -/
  | named (meaning : Meaning) (attached : Option String)
  | value (text : String)
  deriving DecidableEq, Repr

/-- The long names. -/
def longNames : List (String × Meaning) := [
  ("cycles", .setting .cycles),
  ("lsq", .switch .shiftInPlace),
  ("stq", .switch .keepIndex),
  ("vip", .switch .resetFlag),
  ("jmp", .switch .jumpByDigit),
  ("cry", .switch .carryOrder),
  ("seed", .setting .seed),
  ("busy-wait", .switch .busyWait),
  ("log-file", .setting .logFile),
  ("help", .help),
  ("version", .version)]

/-- What a long name stands for. -/
def Meaning.ofLong (name : String) : Meaning := (longNames.lookup name).getD .unknown

/-- What a short name stands for. -/
def Meaning.ofShort : Char → Meaning
  | 'c' => .setting .cycles
  | 'h' => .help
  | 'V' => .version
  | _ => .unknown

/-- The long name and what is attached to it, from what follows the two hyphens. -/
def Argument.ofLong (body : List Char) : Argument :=
  .named (.ofLong (String.ofList (body.takeWhile (· != '='))))
    (match body.dropWhile (· != '=') with
      | [] => none
      | _ :: attached => some (String.ofList attached))

/-- The value that is attached to a short name, from what follows it. Only a
setting takes one: behind the other short names nothing is looked at. -/
def Argument.ofShort (name : Char) (rest : List Char) : Argument :=
  match Meaning.ofShort name, rest with
  | .setting s, '=' :: attached => .named (.setting s) (some (String.ofList attached))
  | .setting s, c :: attached => .named (.setting s) (some (String.ofList (c :: attached)))
  | meaning, _ => .named meaning none

/-- The form of an argument. -/
def Argument.ofString (text : String) : Argument :=
  match text.toList with
  | ['-', '-'] => .onlyValues
  | '-' :: '-' :: body => .ofLong body
  | '-' :: name :: rest => .ofShort name rest
  | _ => .value text

end Chip8.CommandLine
