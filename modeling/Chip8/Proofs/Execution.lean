import Chip8.Machine.Execute

/-!
# What a fetch and an instruction do to the machine

  * `fetch_outside`, `fetch_undecodable` and `fetch_instruction` — the three ways in
    which a fetch ends, each with the machine that it leaves behind. All three look
    at the machine through `nextAddress` and `nextWord` only.
  * `execute_error_iff` — the one fault of an instruction, a call on a full stack.
  * `moves_of_execute` — everything that an instruction can do to the counter, the
    stack and the mark of a pending skip; what follows about runs is by its cases.
-/

namespace Chip8.Machine

/-! ## Fetching -/

/-- The address at which the next instruction is fetched. -/
def nextAddress (m : Machine) : UInt16 :=
  if m.skipPending then m.counter + 2 else m.counter

/-- The word at that address. -/
def nextWord (m : Machine) : UInt16 := m.memory.word m.nextAddress

/-- The machine with its next word taken. -/
def taken (m : Machine) : Machine :=
  { m with counter := m.nextAddress + 2, skipPending := false, lastWord := m.nextWord }

theorem settleSkip_eq (m : Machine) :
    m.settleSkip = { m with counter := m.nextAddress, skipPending := false } := by
  cases h : m.skipPending
  · have hm : m = { m with skipPending := false } := by rw [← h]
    simp only [settleSkip, nextAddress, h]
    exact hm
  · simp only [settleSkip, nextAddress, h]
    rfl

theorem fetch_outside {m : Machine} (h : ¬ InProgram m.nextAddress) :
    m.fetch = (.error (.outsideProgram m.nextAddress m.lastWord), m.settleSkip) := by
  rw [fetch, settleSkip_eq]
  exact if_neg h

theorem fetch_undecodable {m : Machine} (h : InProgram m.nextAddress)
    (hw : Instruction.ofWord? m.nextWord = none) :
    m.fetch = (.error (.undecodable m.nextAddress m.nextWord), m.taken) := by
  rw [nextWord] at hw
  simp only [fetch, settleSkip_eq, if_pos h, hw]
  rfl

theorem fetch_instruction {m : Machine} {i : Instruction} (h : InProgram m.nextAddress)
    (hw : Instruction.ofWord? m.nextWord = some i) :
    m.fetch = (.ok ⟨m.nextAddress, m.nextWord, i⟩, m.taken) := by
  rw [nextWord] at hw
  simp only [fetch, settleSkip_eq, if_pos h, hw]
  rfl

/-! ## Parts of instructions -/

theorem register_setRegister (m : Machine) (x r : Register) (value : UInt8) :
    (m.setRegister x value).register r = if r = x then value else m.register r := by
  by_cases same : r = x
  · simp [register, setRegister, same]
  · have places : x.val ≠ r.val := fun e => same (Fin.ext e.symm)
    simp [register, setRegister, same, places]

theorem setLogic_eq (dialect : Dialect) (m : Machine) (x : Register) (result : UInt8) :
    m.setLogic dialect x result =
      { m with registers := (m.setLogic dialect x result).registers } := by
  unfold setLogic
  simp only
  split
  · rfl
  · rfl

theorem advanceIndex_eq (dialect : Dialect) (m : Machine) (x : Register) :
    m.advanceIndex dialect x = { m with index := (m.advanceIndex dialect x).index } := by
  unfold advanceIndex
  split
  · rfl
  · rfl

/-! ## Skips -/

/-- Whether a skip finds its condition met; nothing if the instruction is no skip. -/
def skipCondition? (m : Machine) : Instruction → Option Bool
  | .skipIfByte x byte => some (m.register x == byte)
  | .skipUnlessByte x byte => some (m.register x != byte)
  | .skipIfSame x y => some (m.register x == m.register y)
  | .skipUnlessSame x y => some (m.register x != m.register y)
  | .skipIfKey x => some (m.keypad.isDown (Keypad.keyOfByte (m.register x)))
  | .skipUnlessKey x => some (!m.keypad.isDown (Keypad.keyOfByte (m.register x)))
  | _ => none

theorem execute_skip {dialect : Dialect} {f : Fetched} {m : Machine} {holds : Bool}
    (h : m.skipCondition? f.instruction = some holds) :
    m.execute dialect f = .ok (m.skipIf holds) := by
  obtain ⟨address, word, i⟩ := f
  cases i
  case skipIfByte | skipUnlessByte | skipIfSame | skipUnlessSame | skipIfKey | skipUnlessKey =>
    obtain rfl := Option.some.inj h
    rfl
  all_goals cases h

/-! ## Executing -/

section
variable (dialect : Dialect) (address word : UInt16) {m : Machine}

theorem execute_call (target : Target) (room : m.stack.length < stackLimit) :
    m.execute dialect ⟨address, word, .call target⟩ =
      .ok ({ m with stack := m.counter :: m.stack }.goTo target) :=
  if_pos room

theorem execute_call_full (target : Target) (full : stackLimit ≤ m.stack.length) :
    m.execute dialect ⟨address, word, .call target⟩ = .error (.stackOverflow address word) :=
  if_neg (Nat.not_lt.mpr full)

theorem execute_ret_nil (h : m.stack = []) : m.execute dialect ⟨address, word, .ret⟩ = .ok m := by
  simp only [execute, h]

theorem execute_ret_cons {top : UInt16} {rest : List UInt16} (h : m.stack = top :: rest) :
    m.execute dialect ⟨address, word, .ret⟩ = .ok { m with counter := top, stack := rest } := by
  simp only [execute, h]

end

theorem execute_error_iff {dialect : Dialect} {f : Fetched} {m : Machine} {fault : Fault} :
    m.execute dialect f = .error fault ↔
      (∃ target, f.instruction = .call target) ∧ stackLimit ≤ m.stack.length ∧
        fault = .stackOverflow f.address f.word := by
  obtain ⟨address, word, i⟩ := f
  cases i
  case call target =>
    rcases Nat.lt_or_ge m.stack.length stackLimit with room | full
    · rw [execute_call dialect address word target room]
      simp only [reduceCtorEq, false_iff, not_and]
      omega
    · rw [execute_call_full dialect address word target full, Except.error.injEq]
      exact ⟨fun h => ⟨⟨target, rfl⟩, full, h.symm⟩, fun h => h.2.2.symm⟩
  case ret => cases hs : m.stack <;> simp [execute, hs]
  all_goals simp [execute]

/-- What an instruction does to the counter, the stack and the mark of a pending skip.
The counter points behind the instruction already. -/
inductive Moves (m : Machine) (i : Instruction) (m' : Machine) : Prop where
  /-- It goes on with the next instruction. -/
  | on (counter : m'.counter = m.counter) (stack : m'.stack = m.stack)
      (mark : m'.skipPending = m.skipPending)
  /-- It leaves the mark, or takes it off, as its condition says. -/
  | skip (condition : m.skipCondition? i = some m'.skipPending)
      (counter : m'.counter = m.counter) (stack : m'.stack = m.stack)
  /-- It goes to an address. -/
  | goTo (target : Target) (counter : m'.counter = UInt16.ofNat target.val)
      (stack : m'.stack = m.stack) (mark : m'.skipPending = m.skipPending)
  /-- It goes to an address and a byte. -/
  | goBehind (target : Target) (byte : UInt8)
      (counter : m'.counter = UInt16.ofNat target.val + byte.toUInt16)
      (stack : m'.stack = m.stack) (mark : m'.skipPending = m.skipPending)
  /-- It goes to an address and remembers where it was. -/
  | call (target : Target) (calls : i = .call target) (room : m.stack.length < stackLimit)
      (counter : m'.counter = UInt16.ofNat target.val) (stack : m'.stack = m.counter :: m.stack)
      (mark : m'.skipPending = m.skipPending)
  /-- It goes back to the newest address. -/
  | ret (returns : i = .ret) (top : m.stack = m'.counter :: m'.stack)
      (mark : m'.skipPending = m.skipPending)

/-- An instruction makes one of these moves; the keypad and the word that was fetched
last it leaves alone. -/
theorem moves_of_execute {dialect : Dialect} {f : Fetched} {m m' : Machine}
    (h : m.execute dialect f = .ok m') :
    Moves m f.instruction m' ∧ m'.keypad = m.keypad ∧ m'.lastWord = m.lastWord := by
  obtain ⟨address, word, i⟩ := f
  cases i
  case call target =>
    rcases Nat.lt_or_ge m.stack.length stackLimit with room | full
    · rw [execute_call dialect address word target room] at h
      obtain rfl := Except.ok.inj h
      exact ⟨.call target rfl room rfl rfl rfl, rfl, rfl⟩
    · rw [execute_call_full dialect address word target full] at h
      cases h
  case ret =>
    cases hs : m.stack with
    | nil =>
      rw [execute_ret_nil dialect address word hs] at h
      obtain rfl := Except.ok.inj h
      exact ⟨.on rfl rfl rfl, rfl, rfl⟩
    | cons top rest =>
      rw [execute_ret_cons dialect address word hs] at h
      obtain rfl := Except.ok.inj h
      exact ⟨.ret rfl hs rfl, rfl, rfl⟩
  case skipIfByte | skipUnlessByte | skipIfSame | skipUnlessSame | skipIfKey | skipUnlessKey =>
    obtain rfl := Except.ok.inj h
    exact ⟨.skip rfl rfl rfl, rfl, rfl⟩
  case jump target =>
    obtain rfl := Except.ok.inj h
    exact ⟨.goTo target rfl rfl rfl, rfl, rfl⟩
  case jumpOffset target =>
    obtain rfl := Except.ok.inj h
    exact ⟨.goBehind target _ rfl rfl rfl, rfl, rfl⟩
  case or | and | xor =>
    obtain rfl := Except.ok.inj h
    rw [setLogic_eq]
    exact ⟨.on rfl rfl rfl, rfl, rfl⟩
  case storeRegisters =>
    obtain rfl := Except.ok.inj h
    rw [advanceIndex_eq, storeRegisters]
    exact ⟨.on rfl rfl rfl, rfl, rfl⟩
  case loadRegisters =>
    obtain rfl := Except.ok.inj h
    rw [advanceIndex_eq, loadRegisters]
    exact ⟨.on rfl rfl rfl, rfl, rfl⟩
  -- all others write registers, I, memory, the frame, the timers or the random bytes
  all_goals
    obtain rfl := Except.ok.inj h
    exact ⟨.on rfl rfl rfl, rfl, rfl⟩

theorem mark_of_execute {dialect : Dialect} {f : Fetched} {m m' : Machine}
    (h : m.execute dialect f = .ok m') (hs : m.skipCondition? f.instruction = none) :
    m'.skipPending = m.skipPending := by
  cases (moves_of_execute h).1 with
  | skip condition => rw [hs] at condition; cases condition
  | on _ _ mark | goTo _ _ _ mark | goBehind _ _ _ _ mark | call _ _ _ _ _ mark
  | ret _ _ mark => exact mark

end Chip8.Machine
