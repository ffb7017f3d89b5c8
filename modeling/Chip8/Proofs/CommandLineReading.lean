import Mathlib.Data.List.Forall2
import Mathlib.Data.List.Nodup
import Chip8.Proofs.Spellings

/-!
# Reading what was said

A value is looked at one argument late, so a reading holds back at most one. What carries the
argument is what a reading amounts to once that value is looked at, `AmountsTo`: an argument or
two that say something new add just this to it, in whichever of their spellings.

  * `take_program`, `take_switch`, `take_attached`, `take_awaited` — one argument.
  * `foldlM_spelled`, `foldlM_items` — one item, and items one after the other.
  * `Records` — after the items of a request, in any order, its items are all that was said.
  * `CyclesInRange` — whatever is read, a count of cycles is in range.

`every_spelling_understood` puts this together.
-/

namespace Chip8.CommandLine

namespace Reading

/-! ## What was said -/

/-- Nothing was said about a subject. -/
def Lacks (r : Reading) : Subject → Prop
  | .program => r.program = none
  | .switch s => s ∉ r.switches
  | .setting .cycles => r.cycles = none
  | .setting .seed => r.seed = none
  | .setting .logFile => r.logFile = none

/-- This was said. -/
def Has (r : Reading) : Item → Prop
  | .program path => r.program = some path.text
  | .switch s => s ∈ r.switches
  | .setting (.cycles n) => r.cycles = some n.count
  | .setting (.seed number) => r.seed = some number
  | .setting (.logFile path) => r.logFile = some path.text

/-- The reading in which this is said besides. -/
def say (r : Reading) : Item → Reading
  | .program path => { r with program := some path.text }
  | .switch s => { r with switches := s :: r.switches }
  | .setting (.cycles n) => { r with cycles := some n.count }
  | .setting (.seed number) => { r with seed := some number }
  | .setting (.logFile path) => { r with logFile := some path.text }

variable {r s : Reading} {item other : Item}

theorem pending_say (r : Reading) (item : Item) : (r.say item).pending = r.pending := by
  rcases item with _ | _ | (_ | _ | _) <;> rfl

theorem onlyValues_say (r : Reading) (item : Item) : (r.say item).onlyValues = r.onlyValues := by
  rcases item with _ | _ | (_ | _ | _) <;> rfl

theorem has_say (r : Reading) (item : Item) : (r.say item).Has item := by
  rcases item with _ | s | (_ | _ | _)
  case switch => exact List.mem_cons_self
  all_goals rfl

theorem Lacks.say {subject : Subject} (h : r.Lacks subject) (differs : item.subject ≠ subject) :
    (r.say item).Lacks subject := by
  rcases item with _ | s | (_ | _ | _) <;> rcases subject with _ | s' | (_ | _ | _)
  -- switches share one list, all else has a field of its own
  case switch.switch =>
    have new : s' ≠ s := fun same => differs (congrArg Subject.switch same.symm)
    exact fun mem => (List.mem_cons.mp mem).elim new h
  all_goals first | exact h | exact absurd rfl differs

theorem Has.say (h : r.Has other) (differs : item.subject ≠ other.subject) :
    (r.say item).Has other := by
  rcases item with _ | s | (_ | _ | _) <;> rcases other with _ | s' | (_ | _ | _)
  case switch.switch => exact List.mem_cons_of_mem _ h
  all_goals first | exact h | exact absurd rfl differs

/-- These items were said and nothing else, and no value is held back. -/
structure Records (r : Reading) (items : List Item) : Prop where
  pending : r.pending = none
  onlyValues : r.onlyValues = false
  has : ∀ item ∈ items, r.Has item
  lacks : ∀ subject, subject ∉ items.map Item.subject → r.Lacks subject

/-- The order in which items are said is of no account. -/
theorem Records.perm {items items' : List Item} (h : r.Records items) (perm : items.Perm items') :
    r.Records items' where
  pending := h.pending
  onlyValues := h.onlyValues
  has item mem := h.has item (perm.mem_iff.mpr mem)
  lacks subject new := h.lacks subject fun mem => new ((perm.map _).mem_iff.mp mem)

theorem records_nil : ({} : Reading).Records [] where
  pending := rfl
  onlyValues := rfl
  has _ mem := absurd mem List.not_mem_nil
  lacks subject _ := by
    rcases subject with _ | _ | (_ | _ | _)
    case switch => exact List.not_mem_nil
    all_goals rfl

theorem Records.say {items : List Item} (h : r.Records items)
    (new : item.subject ∉ items.map Item.subject) : (r.say item).Records (item :: items) where
  pending := (pending_say r item).trans h.pending
  onlyValues := (onlyValues_say r item).trans h.onlyValues
  has other mem := by
    rcases List.mem_cons.mp mem with rfl | earlier
    · exact has_say r _
    · refine (h.has other earlier).say fun same => new ?_
      exact same ▸ List.mem_map_of_mem earlier
  lacks subject silent := by
    rw [List.map_cons, List.mem_cons, not_or] at silent
    exact (h.lacks subject silent.2).say (Ne.symm silent.1)

/-! ## Storing -/

theorem store_program (lacks : r.Lacks .program) (path : Path) :
    r.store .program path.text = .ok (r.say (.program path)) := by
  have empty : ¬ r.program.isSome = true := by simp [show r.program = none from lacks]
  rw [store, if_neg empty, path_text]
  rfl

theorem store_setting (v : Value) (lacks : r.Lacks (.setting v.setting)) :
    r.store (.setting v.setting) v.text = .ok (r.say (.setting v)) := by
  cases v with
  | cycles n =>
    have empty : r.cycles = none := lacks
    simp only [Value.setting, store, empty, cycles?_text, Option.isSome_none]
    rfl
  | seed number =>
    have empty : r.seed = none := lacks
    simp only [Value.setting, store, empty, seed?_text, Option.isSome_none]
    rfl
  | logFile path =>
    have empty : r.logFile = none := lacks
    simp only [Value.setting, Value.text, store, empty, path_text, Option.isSome_none]
    rfl

/-! ## One argument -/

/-- The reading that holds back a value. -/
def holding (s : Reading) (place : Place) (text : String) : Reading :=
  { s with pending := some (place, some text) }

theorem settle_holding (clear : s.pending = none) (place : Place) (text : String) :
    (s.holding place text).settle = s.store place text := by
  have back : { s.holding place text with pending := none } = s := by
    rw [← clear]
    rfl
  rw [settle, back]
  rfl

/-- What a reading that awaits no value comes to once the value that it may hold back is looked
at. -/
inductive AmountsTo : Reading → Reading → Prop where
  | settled (s : Reading) : AmountsTo s s
  | program (s : Reading) (path : Path) (lacks : s.Lacks .program) :
    AmountsTo (s.holding .program path.text) (s.say (.program path))
  | setting (s : Reading) (v : Value) (lacks : s.Lacks (.setting v.setting)) :
    AmountsTo (s.holding (.setting v.setting) v.text) (s.say (.setting v))

theorem AmountsTo.settle (h : r.AmountsTo s) (clear : s.pending = none) : r.settle = .ok s := by
  cases h with
  | settled => rw [Reading.settle, clear]
  | program s path lacks =>
    rw [pending_say] at clear
    rw [settle_holding clear, store_program lacks]
  | setting s v lacks =>
    rw [pending_say] at clear
    rw [settle_holding clear, store_setting v lacks]

theorem AmountsTo.onlyValues (h : r.AmountsTo s) : r.onlyValues = s.onlyValues := by
  cases h with
  | settled => rfl
  | program s path _ => exact (onlyValues_say s _).symm
  | setting s v _ => exact (onlyValues_say s _).symm

/-- Where no program was named, a value names it unless a setting awaits one. -/
theorem takeValue_program
    (free : (r.program.isSome || r.pending.map (·.1) == some .program) = false)
    (unawaited : ∀ place, r.pending ≠ some (place, none)) (text : String) :
    r.takeValue text = r.settle.map (·.holding .program text) := by
  unfold takeValue
  split
  · next awaited _ => exact absurd awaited (unawaited _)
  · exact if_neg (Bool.eq_false_iff.mp free)

section
variable {said : List Item} (h : r.AmountsTo s) (records : s.Records said)
include h records

theorem take_name {text : String} {meaning : Meaning} {attached : Option String}
    (form : Argument.ofString text = .named meaning attached) :
    r.take text = r.takeName meaning attached := by
  rw [take, h.onlyValues, records.onlyValues, form]
  rfl

theorem take_switch {which : Switch} (lacks : s.Lacks (.switch which)) :
    r.take ("--" ++ which.name) = .ok (s.say (.switch which)) := by
  rw [take_name h records (ofString_switch which), takeName, h.settle records.pending]
  exact if_neg fun named => lacks (List.contains_iff_mem.mp named)

/-- A setting whose value is attached is stored at once. -/
theorem take_attached {text : String} {v : Value} (lacks : s.Lacks (.setting v.setting))
    (form : Argument.ofString text = .named (.setting v.setting) (some v.text)) :
    r.take text = .ok (s.say (.setting v)) := by
  rw [take_name h records form, takeName, h.settle records.pending]
  exact store_setting v lacks

/-- A setting without a value awaits it; the value is held back when it comes. -/
theorem take_awaited {text : String} {v : Value}
    (form : Argument.ofString text = .named (.setting v.setting) none) :
    [text, v.text].foldlM take r = .ok (s.holding (.setting v.setting) v.text) := by
  have first : r.take text = .ok { s with pending := some (.setting v.setting, none) } := by
    rw [take_name h records form, takeName, h.settle records.pending]
    rfl
  have second : ({ s with pending := some (.setting v.setting, none) } : Reading).take v.text =
      .ok (s.holding (.setting v.setting) v.text) := by
    rw [take, Argument.ofString_value v.noHyphen]
    simp only [records.onlyValues, takeValue, holding]
    rfl
  rw [List.foldlM_cons, first]
  show List.foldlM take _ [v.text] = _
  rw [List.foldlM_cons, second]
  rfl

/-- A value that nothing awaits names the program, and is held back too. -/
theorem take_program {path : Path} (lacks : s.Lacks .program) :
    r.take path.text = .ok (s.holding .program path.text) := by
  have value : r.take path.text = r.takeValue path.text := by
    rw [take, Argument.ofString_value path.noHyphen]
    exact ite_self _
  rw [value, takeValue_program, h.settle records.pending]
  · rfl
  · cases h with
    | settled => simp [show r.program = none from lacks, records.pending]
    | program s p _ => exact absurd lacks (Option.some_ne_none _)
    | setting s v =>
      have none : s.program = none := by rcases v with _ | _ | _ <;> exact lacks
      simp [holding, none]
  · -- a value is held back only once it has come, so none is awaited here
    intro place
    cases h with
    | settled => simp [records.pending]
    | program | setting => simp [holding]

end

/-! ## Items one after the other -/

/-- A reading that, once it is settled, records these items. -/
def Understood (r : Reading) (said : List Item) : Prop := ∃ s, r.AmountsTo s ∧ s.Records said

/-- However an item is spelled, if it is about something new it is understood. -/
theorem foldlM_spelled {said : List Item} (h : r.Understood said) {arguments : List String}
    (spelled : item.Spelled arguments) (new : item.subject ∉ said.map Item.subject) :
    ∃ r', arguments.foldlM take r = .ok r' ∧ r'.Understood (item :: said) := by
  obtain ⟨s, amounts, records⟩ := h
  have lacks : s.Lacks item.subject := records.lacks _ new
  have one (text : String) : [text].foldlM take r = r.take text := by
    rw [List.foldlM_cons]
    exact bind_pure _
  have later := records.say new
  cases spelled with
  | program path =>
    exact ⟨_, (one _).trans (take_program amounts records lacks), _, .program s path lacks, later⟩
  | switch which =>
    exact ⟨_, (one _).trans (take_switch amounts records lacks), _, .settled _, later⟩
  | apart v =>
    have form := ofString_setting v.setting
    exact ⟨_, take_awaited amounts records form, _, .setting s v lacks, later⟩
  | equals v =>
    have form := ofString_settingEquals v.setting v.text
    exact ⟨_, (one _).trans (take_attached amounts records lacks form), _, .settled _, later⟩
  | short n =>
    have form : Argument.ofString "-c" = .named (.setting .cycles) none := by decide
    exact ⟨_, take_awaited amounts records form, _, .setting s (.cycles n) lacks, later⟩
  | shortJoined n =>
    have form := ofString_shortJoined n.count
    exact ⟨_, (one _).trans (take_attached amounts records lacks form), _, .settled _, later⟩
  | shortEquals n =>
    have form := ofString_shortEquals (Value.cycles n).text
    exact ⟨_, (one _).trans (take_attached amounts records lacks form), _, .settled _, later⟩

/-- So are items one after the other, if each is about something else. -/
theorem foldlM_items {said items : List Item} (h : r.Understood said)
    {pieces : List (List String)} (spelled : List.Forall₂ Item.Spelled items pieces)
    (new : ((items ++ said).map Item.subject).Nodup) :
    ∃ r', pieces.flatten.foldlM take r = .ok r' ∧ r'.Understood (items ++ said) := by
  induction spelled generalizing r said with
  | nil => exact ⟨r, rfl, h⟩
  | @cons item piece items pieces first rest ih =>
    -- what is said first ends up behind what is said later
    have order : (item :: (items ++ said)).Perm (items ++ item :: said) := List.perm_middle.symm
    have distinct : item.subject ∉ (items ++ said).map Item.subject := (List.nodup_cons.mp new).1
    have distinctSaid : item.subject ∉ said.map Item.subject := fun mem =>
      distinct (by rw [List.map_append]; exact List.mem_append_right _ mem)
    obtain ⟨r', taken, understood⟩ := foldlM_spelled h first distinctSaid
    obtain ⟨r'', others, s, amounts, records⟩ :=
      ih understood ((order.map _).nodup_iff.mp new)
    refine ⟨r'', ?_, s, amounts, records.perm order.symm⟩
    rw [List.flatten_cons, List.foldlM_append, taken]
    exact others

/-! ## Counts of cycles -/

/-- A count of cycles that was read is one that a frame can have. -/
def CyclesInRange (r : Reading) : Prop := ∀ n, r.cycles = some n → 1 ≤ n ∧ n ≤ maxCycles

theorem exists_ok_of_bind {ε α β : Type} {x : Except ε α} {f : α → Except ε β} {b : β}
    (h : x.bind f = .ok b) : ∃ a, x = .ok a ∧ f a = .ok b := by
  cases x with
  | error e => cases h
  | ok a => exact ⟨a, rfl, h⟩

theorem exists_ok_of_map {ε α β : Type} {x : Except ε α} {f : α → β} {b : β}
    (h : x.map f = .ok b) : ∃ a, x = .ok a ∧ f a = b := by
  cases x with
  | error e => cases h
  | ok a => exact ⟨a, rfl, Except.ok.inj h⟩

variable {r' : Reading} {text : String}

theorem CyclesInRange.store (h : r.CyclesInRange) {place : Place}
    (done : r.store place text = .ok r') : r'.CyclesInRange := by
  cases place with
  | program =>
    rw [Reading.store] at done
    split at done
    · cases done
    · obtain ⟨_, -, rfl⟩ := exists_ok_of_map done
      exact h
  | setting which =>
    cases which with
    | cycles =>
      simp only [Reading.store] at done
      split at done
      · cases done
      · split at done
        · next n read =>
          cases done
          rintro _ ⟨⟩
          -- the reader of counts itself looks at the range
          rw [cycles?, Option.filter_eq_some_iff, Bool.and_eq_true, decide_eq_true_iff,
            decide_eq_true_iff] at read
          exact read.2
        · cases done
    | seed =>
      simp only [Reading.store] at done
      split at done
      · cases done
      · split at done
        · cases done
          exact h
        · cases done
    | logFile =>
      simp only [Reading.store] at done
      split at done
      · cases done
      · obtain ⟨_, -, rfl⟩ := exists_ok_of_map done
        exact h

theorem CyclesInRange.settle (h : r.CyclesInRange) (done : r.settle = .ok r') :
    r'.CyclesInRange := by
  rw [Reading.settle] at done
  split at done
  · cases done
    exact h
  · cases done
  · exact store (r := { r with pending := none }) h done

theorem CyclesInRange.takeValue (h : r.CyclesInRange) (done : r.takeValue text = .ok r') :
    r'.CyclesInRange := by
  rw [Reading.takeValue.eq_def] at done
  split at done
  · cases done
    exact h
  · split at done
    · cases done
    · obtain ⟨s, settled, rfl⟩ := exists_ok_of_map done
      have inRange := h.settle settled
      exact inRange

theorem CyclesInRange.takeName (h : r.CyclesInRange) {meaning : Meaning}
    {attached : Option String} (done : r.takeName meaning attached = .ok r') :
    r'.CyclesInRange := by
  cases meaning <;> cases attached
  case setting.some which text =>
    obtain ⟨s, settled, stored⟩ := exists_ok_of_bind done
    exact (h.settle settled).store stored
  case setting.none which =>
    obtain ⟨s, settled, rfl⟩ := exists_ok_of_map done
    have inRange := h.settle settled
    exact inRange
  case switch.none which =>
    obtain ⟨s, settled, named⟩ := exists_ok_of_bind done
    rw [switchOn] at named
    split at named
    · cases named
    · cases named
      have inRange := h.settle settled
      exact inRange
  case help.none | version.none =>
    obtain ⟨s, -, stopped⟩ := exists_ok_of_bind done
    cases stopped
  all_goals cases done

theorem CyclesInRange.take (h : r.CyclesInRange) (done : r.take text = .ok r') :
    r'.CyclesInRange := by
  rw [Reading.take] at done
  split at done
  · exact h.takeValue done
  · split at done
    · cases done
      exact h
    · exact h.takeName done
    · exact h.takeValue done

theorem CyclesInRange.foldlM_take (h : r.CyclesInRange) {arguments : List String}
    (done : arguments.foldlM Reading.take r = .ok r') : r'.CyclesInRange := by
  induction arguments generalizing r with
  | nil =>
    cases done
    exact h
  | cons text rest ih =>
    rw [List.foldlM_cons] at done
    obtain ⟨s, taken, others⟩ := exists_ok_of_bind done
    exact ih (h.take taken) others

end Reading

/-! ## Requests -/

/-- What the user of a command line wants it to say; each switch may be among the ones to name. -/
structure Request where
  rom : Path
  logFile : Option Path := none
  cycles : Option CycleCount := none
  seed : Option UInt64 := none
  switches : List Switch := []
  once : switches.Nodup := by decide

namespace Request

variable (q : Request)

/-- The value that a setting is to have, if it is to be given. -/
def value? : Setting → Option Value
  | .cycles => q.cycles.map .cycles
  | .seed => q.seed.map .seed
  | .logFile => q.logFile.map .logFile

/-- The settings that are to be given. -/
def settings : List Value := [Setting.cycles, .seed, .logFile].filterMap q.value?

/-- All that is to be said. -/
def items : List Item :=
  .program q.rom :: (q.settings.map .setting ++ q.switches.map .switch)

/-- The items of the request in some order, each in one of its spellings. -/
def WrittenAs (arguments : List String) : Prop :=
  ∃ items pieces, items.Perm q.items ∧ List.Forall₂ Item.Spelled items pieces ∧
    arguments = pieces.flatten

/-- The dialect that the name of the program asks for. -/
def romDialect : Dialect := Dialect.ofRomName (Bytes.ofString q.rom.text)

/-- The options are what was asked for, and so is the configuration that follows from them. -/
structure MetBy (o : Options) : Prop where
  rom : o.rom = q.rom.text
  logFile : o.logFile = q.logFile.map Path.text
  cycles : o.config.cycles = (q.cycles.map CycleCount.count).getD 20
  seed : o.config.seed = q.seed
  pacing : o.config.pacing = .busyLoop ↔ .busyWait ∈ q.switches
  shiftInPlace : o.config.dialect.shiftInPlace = true ↔
    .shiftInPlace ∈ q.switches ∨ q.romDialect.shiftInPlace = true
  keepIndex : o.config.dialect.keepIndex = true ↔
    .keepIndex ∈ q.switches ∨ q.romDialect.keepIndex = true
  resetFlag : o.config.dialect.resetFlag = true ↔
    .resetFlag ∈ q.switches ∨ q.romDialect.resetFlag = true
  jumpByDigit : o.config.dialect.jumpByDigit = true ↔
    .jumpByDigit ∈ q.switches ∨ q.romDialect.jumpByDigit = true
  carryOrder : o.config.dialect.carryOrder = true ↔
    .carryOrder ∈ q.switches ∨ q.romDialect.carryOrder = true

/-! ## What a reading of a request comes to -/

theorem subjects_items :
    q.items.map Item.subject =
      .program :: ((q.settings.map Value.setting).map .setting ++ q.switches.map .switch) := by
  simp only [items, List.map_cons, List.map_append, List.map_map]
  rfl

theorem nodup_settings : (q.settings.map Value.setting).Nodup := by
  simp only [settings, value?, List.filterMap_cons, List.filterMap_nil]
  cases q.cycles <;> cases q.seed <;> cases q.logFile <;> simp [Value.setting]

theorem nodup_subjects : (q.items.map Item.subject).Nodup := by
  have settings : ((q.settings.map Value.setting).map Subject.setting).Nodup :=
    q.nodup_settings.map fun _ _ => Subject.setting.inj
  have switches : (q.switches.map Subject.switch).Nodup := q.once.map fun _ _ => Subject.switch.inj
  rw [subjects_items, List.nodup_cons, List.nodup_append]
  refine ⟨by simp, settings, switches, ?_⟩
  rintro subject setting _ switch rfl
  obtain ⟨_, -, rfl⟩ := List.mem_map.mp setting
  obtain ⟨_, -, ⟨⟩⟩ := List.mem_map.mp switch

theorem setting_of_value? {which : Setting} {v : Value} (given : q.value? which = some v) :
    v.setting = which := by
  cases which with
  | cycles | seed | logFile =>
    obtain ⟨_, -, rfl⟩ := Option.map_eq_some_iff.mp given
    rfl

theorem mem_settings {v : Value} : v ∈ q.settings ↔ q.value? v.setting = some v := by
  rw [settings, List.mem_filterMap]
  constructor
  · rintro ⟨which, -, given⟩
    rw [q.setting_of_value? given]
    exact given
  · intro given
    refine ⟨v.setting, ?_, given⟩
    cases v.setting <;> decide

theorem setting_mem_subjects {which : Setting} :
    .setting which ∈ q.items.map Item.subject ↔ ∃ v ∈ q.settings, v.setting = which := by
  simp [subjects_items]

theorem switch_mem_subjects {which : Switch} :
    .switch which ∈ q.items.map Item.subject ↔ which ∈ q.switches := by
  simp [subjects_items]

section
variable {q} {r : Reading} (records : r.Records q.items)
include records

theorem program_eq : r.program = some q.rom.text := records.has _ List.mem_cons_self

theorem mem_switches {which : Switch} : which ∈ r.switches ↔ which ∈ q.switches := by
  constructor
  · intro named
    by_contra absent
    exact records.lacks (.switch which) (fun mem => absent (q.switch_mem_subjects.mp mem)) named
  · intro asked
    exact records.has (.switch which) (List.mem_cons_of_mem _ (List.mem_append_right _
      (List.mem_map_of_mem asked)))

theorem has_setting {which : Setting} {v : Value} (given : q.value? which = some v) :
    r.Has (.setting v) := by
  obtain rfl := q.setting_of_value? given
  exact records.has _ (List.mem_cons_of_mem _ (List.mem_append_left _
    (List.mem_map_of_mem (q.mem_settings.mpr given))))

theorem lacks_setting (which : Setting) (none : q.value? which = none) :
    r.Lacks (.setting which) := by
  refine records.lacks _ fun mem => ?_
  obtain ⟨v, asked, rfl⟩ := q.setting_mem_subjects.mp mem
  rw [q.mem_settings.mp asked] at none
  cases none

theorem cycles_eq : r.cycles = q.cycles.map CycleCount.count := by
  cases given : q.cycles with
  | none => exact lacks_setting records .cycles (by rw [value?, given, Option.map_none])
  | some n =>
    have value : q.value? .cycles = some (.cycles n) := congrArg (Option.map Value.cycles) given
    exact has_setting records value

theorem seed_eq : r.seed = q.seed := by
  cases given : q.seed with
  | none => exact lacks_setting records .seed (by rw [value?, given, Option.map_none])
  | some number =>
    have value : q.value? .seed = some (.seed number) := congrArg (Option.map Value.seed) given
    exact has_setting records value

theorem logFile_eq : r.logFile = q.logFile.map Path.text := by
  cases given : q.logFile with
  | none => exact lacks_setting records .logFile (by rw [value?, given, Option.map_none])
  | some path =>
    have value : q.value? .logFile = some (.logFile path) :=
      congrArg (Option.map Value.logFile) given
    exact has_setting records value

theorem exists_options : ∃ o, r.options = .ok o ∧ q.MetBy o := by
  have named (which : Switch) : r.switches.contains which = true ↔ which ∈ q.switches :=
    List.contains_iff_mem.trans (mem_switches records)
  have union (a b : Bool) (which : Switch) (same : a = r.switches.contains which) :
      (a || b) = true ↔ which ∈ q.switches ∨ b = true := by
    rw [Bool.or_eq_true, same, named]
  refine ⟨_, by rw [Reading.options, program_eq records], ?_⟩
  constructor
  case rom => rfl
  case logFile => exact logFile_eq records
  case cycles => exact congrArg (Option.getD · 20) (cycles_eq records)
  case seed => exact seed_eq records
  case pacing =>
    rw [← named]
    show (if _ then Pacing.busyLoop else .sleep) = .busyLoop ↔ _
    split
    · next on => exact iff_of_true rfl on
    · next off => exact iff_of_false (by decide) off
  all_goals exact union _ _ _ rfl

end

end Request

theorem cycles_options {r : Reading} {o : Options} (done : r.options = .ok o) :
    o.cycles = r.cycles.getD 20 := by
  rw [Reading.options] at done
  split at done
  · cases done
  · cases done
    rfl

/-- **Every spelling is understood.** However the parts of a request are spelled and in whatever
order they are given, the command line leads to the options that were asked for, and to the
configuration that follows from them; and no command line leads to a count of cycles that is out
of range. -/
theorem every_spelling_understood :
    (∀ (q : Request) (arguments : List String), q.WrittenAs arguments →
      ∃ o, parse arguments = .ok o ∧ q.MetBy o) ∧
    ∀ (arguments : List String) (o : Options), parse arguments = .ok o →
      1 ≤ o.config.cycles ∧ o.config.cycles ≤ 4294967295 := by
  constructor
  · rintro q arguments ⟨items, pieces, order, spelled, rfl⟩
    have new : ((items ++ []).map Item.subject).Nodup := by
      rw [List.append_nil, (order.map _).nodup_iff]
      exact q.nodup_subjects
    obtain ⟨r, taken, s, amounts, records⟩ :=
      Reading.foldlM_items ⟨{}, .settled {}, Reading.records_nil⟩ spelled new
    rw [List.append_nil] at records
    obtain ⟨o, done, met⟩ := Request.exists_options (records.perm order)
    refine ⟨o, ?_, met⟩
    show (pieces.flatten.foldlM Reading.take {}).bind (fun r => r.settle.bind Reading.options) = _
    rw [taken]
    show r.settle.bind Reading.options = _
    rw [amounts.settle records.pending]
    exact done
  · intro arguments o done
    obtain ⟨r, taken, others⟩ := Reading.exists_ok_of_bind done
    obtain ⟨s, settled, options⟩ := Reading.exists_ok_of_bind others
    have start : ({} : Reading).CyclesInRange := by
      rintro n ⟨⟩
    have inRange := (start.foldlM_take taken).settle settled
    show 1 ≤ o.cycles ∧ o.cycles ≤ maxCycles
    rw [cycles_options options]
    cases given : s.cycles with
    | none => decide
    | some n => exact inRange n given

/-- Values that stand apart, beside their name and behind an equals sign, around the program. -/
theorem every_spelling_understood_shuffled :
    let rom : Path := ⟨"roms/invaders.S", by decide, by decide⟩
    let log : Path := ⟨"a b=c", by decide, by decide⟩
    let q : Request := {
      rom, logFile := some log, cycles := some { count := 50 }, seed := some 18446744073709551615
      switches := [.shiftInPlace, .busyWait] }
    let arguments := ["--busy-wait", "--log-file=a b=c", "-c50", "roms/invaders.S", "--lsq",
      "--seed", "18446744073709551615"]
    (q.WrittenAs arguments ∧ ∃ o, parse arguments = .ok o ∧ q.MetBy o) ∧
    ∃ o, parse ["x", "-c=+4294967295"] = .ok o ∧
      1 ≤ o.config.cycles ∧ o.config.cycles ≤ 4294967295 := by
  intro rom log q arguments
  have written : q.WrittenAs arguments :=
    ⟨[.switch .busyWait, .setting (.logFile log), .setting (.cycles { count := 50 }), .program rom,
        .switch .shiftInPlace, .setting (.seed 18446744073709551615)],
      _, by decide,
      .cons (.switch _) (.cons (.equals _) (.cons (.shortJoined _) (.cons (.program _)
        (.cons (.switch _) (.cons (.apart _) .nil))))),
      by decide⟩
  obtain ⟨o, read⟩ : ∃ o, parse ["x", "-c=+4294967295"] = .ok o := ⟨_, rfl⟩
  exact ⟨⟨written, every_spelling_understood.1 q arguments written⟩, o, read,
    every_spelling_understood.2 _ o read⟩

end Chip8.CommandLine
