import Mathlib.Data.List.TakeWhile
import Chip8.CommandLine.Parse

/-!
# Spellings

What a command line can say piece by piece, and the arguments that say it. A program and a switch
are one argument. A setting is two, its name and its value, or one with both in it; the count of
cycles has a short name besides, behind which its value may stand at once.

  * `Item`, `Item.Spelled` — the pieces and their spellings.
  * `ofString_value`, `ofString_long`, `ofString_longEquals` — arguments are told apart by the
    hyphens in front and the first equals sign.
  * `number?_toString` — a number is read from the decimal that it is written as.
-/

namespace Chip8.CommandLine

/-! ## What can be said -/

/-- A path that is not taken for a name: there is something, with no hyphen in front. -/
structure Path where
  text : String
  nonempty : text ≠ ""
  noHyphen : text.toList.head? ≠ some '-'
  deriving DecidableEq

/-- A count of cycles that a frame can have. -/
structure CycleCount where
  count : Nat
  pos : 1 ≤ count := by decide
  le : count ≤ maxCycles := by decide
  deriving DecidableEq

/-- A setting with its value. -/
inductive Value where
  | cycles (n : CycleCount)
  | seed (number : UInt64)
  | logFile (path : Path)
  deriving DecidableEq

/-- Something that can be said once on a command line. -/
inductive Item where
  | program (path : Path)
  | switch (s : Switch)
  | setting (v : Value)
  deriving DecidableEq

/-- What an item is about. -/
inductive Subject where
  | program
  | switch (s : Switch)
  | setting (s : Setting)
  deriving DecidableEq

namespace Value

def setting : Value → Setting
  | .cycles _ => .cycles
  | .seed _ => .seed
  | .logFile _ => .logFile

/-- The value as it is written; numbers in decimal. -/
def text : Value → String
  | .cycles n => toString n.count
  | .seed number => toString number.toNat
  | .logFile path => path.text

end Value

def Item.subject : Item → Subject
  | .program _ => .program
  | .switch s => .switch s
  | .setting v => .setting v.setting

/-! ## How it is said -/

/-- The long name of a switch. -/
def Switch.name : Switch → String
  | .shiftInPlace => "lsq"
  | .keepIndex => "stq"
  | .resetFlag => "vip"
  | .jumpByDigit => "jmp"
  | .carryOrder => "cry"
  | .busyWait => "busy-wait"

/-- The long name of a setting. -/
def Setting.name : Setting → String
  | .cycles => "cycles"
  | .seed => "seed"
  | .logFile => "log-file"

/-- The arguments that say an item. -/
inductive Item.Spelled : Item → List String → Prop where
  | program (path : Path) : Spelled (.program path) [path.text]
  | switch (s : Switch) : Spelled (.switch s) ["--" ++ s.name]
  | apart (v : Value) : Spelled (.setting v) ["--" ++ v.setting.name, v.text]
  | equals (v : Value) : Spelled (.setting v) ["--" ++ v.setting.name ++ "=" ++ v.text]
  | short (n : CycleCount) : Spelled (.setting (.cycles n)) ["-c", (Value.cycles n).text]
  | shortJoined (n : CycleCount) : Spelled (.setting (.cycles n)) ["-c" ++ (Value.cycles n).text]
  | shortEquals (n : CycleCount) : Spelled (.setting (.cycles n)) ["-c=" ++ (Value.cycles n).text]

/-! ## The forms of arguments -/

namespace Argument

variable {text name value : String}

theorem ofString_value (noHyphen : text.toList.head? ≠ some '-') : ofString text = .value text := by
  rw [ofString]
  split
  · next eq => exact absurd (congrArg List.head? eq) noHyphen
  · next eq => exact absurd (congrArg List.head? eq) noHyphen
  · next eq => exact absurd (congrArg List.head? eq) noHyphen
  · rfl

/-- Two hyphens and something that does not end there begin a long name. -/
theorem ofString_hyphens {body : List Char} (eq : text.toList = '-' :: '-' :: body)
    (more : body ≠ []) : ofString text = ofLong body := by
  cases body with
  | nil => exact absurd rfl more
  | cons c rest => simp only [ofString, eq]

theorem ofString_hyphen {c : Char} {rest : List Char} (eq : text.toList = '-' :: c :: rest)
    (single : c ≠ '-') : ofString text = ofShort c rest := by
  rw [ofString, eq]
  split
  · next two => exact absurd (List.cons.inj (List.cons.inj two).2).1 single
  · next two => exact absurd (List.cons.inj (List.cons.inj two).2).1 single
  · next same =>
    obtain ⟨-, same⟩ := List.cons.inj same
    obtain ⟨rfl, rfl⟩ := List.cons.inj same
    rfl
  · next other => exact absurd rfl (other c rest)

theorem ofLong_name {body : List Char} (noEquals : ∀ c ∈ body, (c != '=') = true) :
    ofLong body = .named (.ofLong (String.ofList body)) none := by
  rw [ofLong, List.takeWhile_eq_self_iff.mpr noEquals, List.dropWhile_eq_nil_iff.mpr noEquals]

theorem ofLong_nameEquals {body : List Char} (noEquals : ∀ c ∈ body, (c != '=') = true)
    (attached : List Char) :
    ofLong (body ++ '=' :: attached) =
      .named (.ofLong (String.ofList body)) (some (String.ofList attached)) := by
  rw [ofLong, List.takeWhile_append_of_pos noEquals, List.dropWhile_append_of_pos noEquals]
  simp

theorem ofString_long (nonempty : name.toList ≠ [])
    (noEquals : ∀ c ∈ name.toList, (c != '=') = true) :
    ofString ("--" ++ name) = .named (.ofLong name) none := by
  rw [ofString_hyphens String.toList_append nonempty, ofLong_name noEquals, String.ofList_toList]

theorem ofString_longEquals (noEquals : ∀ c ∈ name.toList, (c != '=') = true) :
    ofString ("--" ++ name ++ "=" ++ value) = .named (.ofLong name) (some value) := by
  have eq : ("--" ++ name ++ "=" ++ value).toList =
      '-' :: '-' :: (name.toList ++ '=' :: value.toList) := by
    simp [String.toList_append]
  rw [ofString_hyphens eq (by simp), ofLong_nameEquals noEquals, String.ofList_toList,
    String.ofList_toList]

end Argument

theorem Meaning.ofLong_switch (s : Switch) : Meaning.ofLong s.name = .switch s := by
  cases s <;> decide

theorem Meaning.ofLong_setting (s : Setting) : Meaning.ofLong s.name = .setting s := by
  cases s <;> decide

theorem Switch.noEquals (s : Switch) : ∀ c ∈ s.name.toList, (c != '=') = true :=
  List.all_eq_true.mp (by cases s <;> decide)

theorem Setting.noEquals (s : Setting) : ∀ c ∈ s.name.toList, (c != '=') = true :=
  List.all_eq_true.mp (by cases s <;> decide)

theorem ofString_switch (s : Switch) :
    Argument.ofString ("--" ++ s.name) = .named (.switch s) none := by
  rw [Argument.ofString_long _ s.noEquals, Meaning.ofLong_switch]
  cases s <;> decide

theorem ofString_setting (s : Setting) :
    Argument.ofString ("--" ++ s.name) = .named (.setting s) none := by
  rw [Argument.ofString_long _ s.noEquals, Meaning.ofLong_setting]
  cases s <;> decide

theorem ofString_settingEquals (s : Setting) (value : String) :
    Argument.ofString ("--" ++ s.name ++ "=" ++ value) = .named (.setting s) (some value) := by
  rw [Argument.ofString_longEquals s.noEquals, Meaning.ofLong_setting]

/-! ## Numbers -/

theorem toList_toString (n : Nat) : (toString n).toList = Nat.toDigits 10 n := by
  rw [Nat.toString_eq_ofList_toDigits, String.toList_ofList]

/-- A decimal begins with a digit, so that it is not taken for anything else. -/
theorem exists_toDigits (n : Nat) :
    ∃ d rest, Nat.toDigits 10 n = d :: rest ∧ d.isDigit = true := by
  cases eq : Nat.toDigits 10 n with
  | nil => exact absurd eq Nat.toDigits_ne_nil
  | cons d rest =>
    have mem : d ∈ Nat.toDigits 10 n := eq ▸ List.mem_cons_self
    exact ⟨d, rest, rfl, Nat.isDigit_of_mem_toDigits (by decide) (by decide) mem⟩

theorem numberOfDigits?_toDigits (n : Nat) : numberOfDigits? (Nat.toDigits 10 n) = some n := by
  have digits : (Nat.toDigits 10 n).all Char.isDigit = true :=
    List.all_eq_true.mpr fun c mem => Nat.isDigit_of_mem_toDigits (by decide) (by decide) mem
  have some : (Nat.toDigits 10 n).isEmpty = false :=
    List.isEmpty_eq_false_iff.mpr Nat.toDigits_ne_nil
  have value := Nat.ofDigitChars_ten_toDigits (n := n)
  rw [Nat.ofDigitChars_eq_foldl] at value
  simp only [numberOfDigits?, some, digits, Nat.mul_comm _ 10, value]
  rfl

theorem number?_toString (n : Nat) : number? (toString n) = some n := by
  obtain ⟨d, rest, eq, digit⟩ := exists_toDigits n
  have value := numberOfDigits?_toDigits n
  rw [eq] at value
  rw [number?, toList_toString, eq]
  split
  · next plus =>
    obtain ⟨rfl, -⟩ := List.cons.inj plus
    exact absurd digit (by decide)
  · exact value

theorem cycles?_text (n : CycleCount) : cycles? (Value.cycles n).text = some n.count := by
  rw [cycles?, Value.text, number?_toString, Option.filter_some, if_pos]
  simp only [n.pos, n.le, decide_true, Bool.and_self]

theorem seed?_text (number : UInt64) : seed? (Value.seed number).text = some number := by
  have le : number.toNat ≤ maxSeed := Nat.le_of_lt_succ number.toNat_lt
  rw [seed?, Value.text, number?_toString, Option.filter_some, if_pos (decide_eq_true le),
    Option.map_some, UInt64.ofNat_toNat]

theorem path_text (p : Path) : path p.text = .ok p.text := by
  rw [path, if_neg]
  exact fun empty => p.nonempty (String.isEmpty_iff.mp empty)

theorem head?_toString (n : Nat) : (toString n).toList.head? ≠ some '-' := by
  obtain ⟨d, rest, eq, digit⟩ := exists_toDigits n
  rw [toList_toString, eq]
  rintro ⟨⟩
  exact absurd digit (by decide)

theorem Value.noHyphen (v : Value) : v.text.toList.head? ≠ some '-' := by
  cases v with
  | cycles n => exact head?_toString n.count
  | seed number => exact head?_toString number.toNat
  | logFile path => exact path.noHyphen

/-! ## The short name -/

theorem ofShort_cycles {c : Char} (noEquals : c ≠ '=') (rest : List Char) :
    Argument.ofShort 'c' (c :: rest) =
      .named (.setting .cycles) (some (String.ofList (c :: rest))) := by
  rw [Argument.ofShort]
  · exact noEquals
  · rfl

/-- A number may stand at once behind the short name, as it does not begin with an equals sign. -/
theorem ofString_shortJoined (n : Nat) :
    Argument.ofString ("-c" ++ toString n) = .named (.setting .cycles) (some (toString n)) := by
  obtain ⟨d, rest, eq, digit⟩ := exists_toDigits n
  have noEquals : d ≠ '=' := by
    rintro rfl
    exact absurd digit (by decide)
  have text : ("-c" ++ toString n).toList = '-' :: 'c' :: d :: rest := by
    rw [String.toList_append, toList_toString, eq]
    rfl
  rw [Argument.ofString_hyphen text (by decide), ofShort_cycles noEquals, ← eq,
    Nat.toString_eq_ofList_toDigits]

theorem ofString_shortEquals (value : String) :
    Argument.ofString ("-c=" ++ value) = .named (.setting .cycles) (some value) := by
  have text : ("-c=" ++ value).toList = '-' :: 'c' :: '=' :: value.toList := String.toList_append
  rw [Argument.ofString_hyphen text (by decide)]
  show Argument.named (.setting .cycles) (some (String.ofList value.toList)) = _
  rw [String.ofList_toList]

end Chip8.CommandLine
