import Chip8.Program
import Chip8.Proofs.WorkingDevices

/-!
# The terminal is handed back

A session switches raw mode on, takes the screen over, paints and in the end hands back what
it took. Two parties can give the screen back, the run when it is shut down and the painter
when it is closed; only the first of them does something. Raw mode is the first thing that is
switched on and the last that is switched off, which is why the alternate screen is never
shown without it.

  * `Painter.follow` — the operations that the calls of a run on its display stand for, in
    the order of the calls; `follow_of_draws` takes the drawings off the front.
  * `keeps_draw`, `keeps_drawAll` — what painting is made of: nothing that switches raw
    mode, shows the cursor or leaves the alternate screen.
  * `staysGuarded_append`, `staysGuarded_of_raw` — the alternate screen at every moment while
    operations are carried out, piece by piece; `staysGuarded_held` for a whole session.
  * `Session.ops_play` — a session is the calls of its run between taking and giving back;
    `Session.ops_eq_held` tells what is kept and what is given back.

`terminal_handed_back` says how every session leaves the terminal.
-/

namespace Chip8

namespace Terminal

variable {t : Terminal} {ops first second : List Op}

/-! ## A terminal while operations are carried out -/

/-- As a terminal is between programs. -/
structure AtRest (t : Terminal) : Prop where
  cooked : t.raw = false
  onMain : t.onAlternate = false
  cursor : t.cursor = true

/-- The alternate screen is shown in raw mode only. -/
def Guarded (t : Terminal) : Prop := t.onAlternate = true → t.raw = true

/-- So it is at every moment while operations are carried out. -/
def StaysGuarded (t : Terminal) (ops : List Op) : Prop :=
  ∀ moment, moment <+: ops → (t.applyAll moment).Guarded

@[simp] theorem raw_remember (t : Terminal) : t.remember.raw = t.raw := by
  unfold remember
  split
  · rfl
  · rfl

@[simp] theorem cursor_remember (t : Terminal) : t.remember.cursor = t.cursor := by
  unfold remember
  split
  · rfl
  · rfl

theorem raw_apply (t : Terminal) {op : Op} (h : ∀ on, op ≠ .setRaw on) :
    (t.apply op).raw = t.raw := by
  cases op with
  | setRaw on => exact absurd rfl (h on)
  | enterAlternate | hideCursor | showCursor => rfl
  | leaveAlternate => exact raw_remember t
  | clear =>
    simp only [apply]
    split
    · exact raw_remember t
    · rfl
  | put x y cell =>
    simp only [apply]
    split
    · rfl
    · split
      · rfl
      · rfl

theorem raw_applyAll (t : Terminal) (h : ∀ on, .setRaw on ∉ ops) :
    (t.applyAll ops).raw = t.raw := by
  induction ops generalizing t with
  | nil => rfl
  | cons op ops ih =>
    have other (on : Bool) : op ≠ .setRaw on := by
      rintro rfl
      exact h on List.mem_cons_self
    calc (t.applyAll (op :: ops)).raw
        = (t.apply op).raw := ih (t.apply op) fun on mem => h on (List.mem_cons_of_mem _ mem)
      _ = t.raw := raw_apply t other

theorem staysGuarded_append (h : t.StaysGuarded first)
    (h' : (t.applyAll first).StaysGuarded second) : t.StaysGuarded (first ++ second) := by
  intro moment before
  rcases List.prefix_or_prefix_of_prefix before (List.prefix_append first second) with
    early | ⟨later, rfl⟩
  · exact h moment early
  · rw [applyAll_append]
    exact h' later ((List.prefix_append_right_inj first).mp before)

theorem staysGuarded_of_raw (raw : t.raw = true) (h : ∀ on, .setRaw on ∉ ops) :
    t.StaysGuarded ops := by
  intro moment before _
  rw [raw_applyAll t fun on mem => h on (before.subset mem), raw]

/-- While the main screen is shown, raw mode may come and go. -/
theorem staysGuarded_setRaw (onMain : t.onAlternate = false) (on : Bool) :
    t.StaysGuarded [.setRaw on] := by
  intro moment before alternate
  rcases List.prefix_cons_iff.mp before with rfl | ⟨rest, rfl, none⟩
  · cases alternate.symm.trans onMain
  · obtain rfl := List.prefix_nil.mp none
    cases alternate.symm.trans onMain

theorem staysGuarded_cons_setRaw (onMain : t.onAlternate = false) (h : ∀ on, .setRaw on ∉ ops) :
    t.StaysGuarded (.setRaw true :: ops) := by
  rw [← List.singleton_append]
  exact staysGuarded_append (staysGuarded_setRaw onMain true) (staysGuarded_of_raw rfl h)

/-! ## The painter -/

/-- Whether a program that has taken a terminal over keeps it with an operation: the mode
stays as it is, and neither the main screen nor the cursor is shown. -/
def Op.keeps : Op → Bool
  | .enterAlternate | .hideCursor | .clear | .put _ _ _ => true
  | .leaveAlternate | .showCursor | .setRaw _ => false

/-- What is done to give the screen back. -/
def giveBack : List Op := [.clear, .showCursor, .leaveAlternate]

theorem onMain_giveBack (t : Terminal) : (t.applyAll giveBack).onAlternate = false := rfl

theorem atRest_giveBack (t : Terminal) : (t.applyAll (giveBack ++ [.setRaw false])).AtRest where
  cooked := rfl
  onMain := rfl
  cursor := cursor_remember _

theorem setRaw_notMem_giveBack (on : Bool) : .setRaw on ∉ giveBack := by
  simp [giveBack]

theorem notMem_of_keeps {held : List Op} (keeps : ∀ op ∈ held, op.keeps = true) {op : Op}
    (h : op.keeps = false) : op ∉ held := by
  intro mem
  cases h.symm.trans (keeps op mem)

/-- A terminal at rest is kept hold of, and then it is given back or is not yet. -/
theorem staysGuarded_held {held : List Op} (start : t.AtRest)
    (keeps : ∀ op ∈ held, op.keeps = true) (ended : Bool) :
    t.StaysGuarded (.setRaw true :: held ++
      (if ended then giveBack ++ [.setRaw false] else [])) := by
  have quiet (on : Bool) : .setRaw on ∉ held := notMem_of_keeps keeps rfl
  cases ended with
  | false =>
    rw [if_neg Bool.false_ne_true, List.append_nil]
    exact staysGuarded_cons_setRaw start.onMain quiet
  | true =>
    have quiet' (on : Bool) : .setRaw on ∉ held ++ giveBack := by
      rw [List.mem_append, not_or]
      exact ⟨quiet on, setRaw_notMem_giveBack on⟩
    rw [if_pos rfl, ← List.append_assoc]
    refine staysGuarded_append (staysGuarded_cons_setRaw start.onMain quiet') ?_
    refine staysGuarded_setRaw ?_ false
    rw [List.cons_append, ← List.cons_append, applyAll_append]
    exact onMain_giveBack _

namespace Painter

variable {p : Painter}

/-- What calls on a display do to the terminal, where the display has been given these
pictures. -/
def follow (size : Size) : List DeviceCall → List Picture → Painter → Painter × List Op
  | .draw :: calls, picture :: pictures, p =>
    let drawn := p.draw size picture
    let rest := follow size calls pictures drawn.1
    (rest.1, drawn.2 ++ rest.2)
  | .release :: calls, pictures, p =>
    let restored := p.release
    let rest := follow size calls pictures restored.1
    (rest.1, restored.2 ++ rest.2)
  | _ :: calls, pictures, p => follow size calls pictures p
  | [], _, p => (p, [])

theorem keeps_takeOver (size : Size) : ∀ op ∈ (takeOver size).2, op.keeps = true := by
  show ∀ op ∈ [Op.enterAlternate, .hideCursor, .clear], op.keeps = true
  decide

theorem keeps_draw (size : Size) (p : Painter) (picture : Picture) :
    (p.draw size picture).1.released = p.released ∧
      ∀ op ∈ (p.draw size picture).2, op.keeps = true := by
  have fits : (p.fit size).1.released = p.released ∧ ∀ op ∈ (p.fit size).2, op.keeps = true := by
    unfold fit
    split
    · simp
    · simp [Op.keeps]
  refine ⟨fits.1, fun op mem => ?_⟩
  rcases List.mem_append.mp mem with mem | mem
  · rcases List.mem_append.mp mem with mem | mem
    · exact fits.2 op mem
    · obtain ⟨⟨x, y⟩, -, put⟩ := List.mem_filterMap.mp mem
      dsimp only at put
      split at put
      · cases put
      · obtain rfl := Option.some.inj put
        rfl
  · obtain rfl := List.mem_singleton.mp mem
    rfl

theorem keeps_drawAll (size : Size) (p : Painter) (pictures : List Picture) :
    (p.drawAll size pictures).1.released = p.released ∧
      ∀ op ∈ (p.drawAll size pictures).2, op.keeps = true := by
  induction pictures generalizing p with
  | nil => exact ⟨rfl, fun _ mem => absurd mem List.not_mem_nil⟩
  | cons picture rest ih =>
    obtain ⟨held, keeps⟩ := keeps_draw size p picture
    obtain ⟨held', keeps'⟩ := ih (p.draw size picture).1
    refine ⟨held'.trans held, fun op mem => ?_⟩
    rcases List.mem_append.mp mem with mem | mem
    · exact keeps op mem
    · exact keeps' op mem

theorem release_of_held (h : p.released = false) :
    p.release = ({ p with sent := none, released := true, cursorHidden := false }, giveBack) := by
  unfold release
  rw [if_neg (by simp [h])]
  rfl

/-- A painter that has given the screen back has nothing left to do. -/
theorem close_release (h : p.released = false) : p.release.1.close = [] := by
  rw [release_of_held h]
  rfl

/-- Drawings that come first are painted first, one for each picture. -/
theorem follow_of_draws {calls : List DeviceCall} {pictures : List Picture} (size : Size)
    (p : Painter) (rest : List DeviceCall) (held : .release ∉ calls)
    (enough : pictures.length = calls.count .draw) :
    p.follow size (calls ++ rest) pictures =
      let drawn := p.drawAll size pictures
      let others := drawn.1.follow size rest []
      (others.1, drawn.2 ++ others.2) := by
  induction calls generalizing p pictures with
  | nil =>
    obtain rfl := List.eq_nil_of_length_eq_zero enough
    rfl
  | cons call calls ih =>
    have later : .release ∉ calls := fun mem => held (List.mem_cons_of_mem _ mem)
    cases call with
    | release => exact absurd List.mem_cons_self held
    | poll | read => exact ih p later (by simpa using enough)
    | draw =>
      cases pictures with
      | nil => simp at enough
      | cons picture pictures =>
        have fewer : pictures.length = calls.count .draw := by simpa using enough
        have same := ih (p.draw size picture).1 later fewer
        rw [List.cons_append, follow, same]
        exact Prod.ext rfl (List.append_assoc _ _ _).symm

end Painter

end Terminal

namespace Session

open Terminal

/-! ## Sessions -/

/-- The run with which a session begins. -/
def begun (config : Config) (chance : UInt64) (codes : List (Option UInt8))
    (program : List UInt8) : Scheduler :=
  { console := ((console config chance codes).load program).2
    dialect := config.dialect
    cycles := config.cycles }

section
variable (config : Config) (chance : UInt64) (codes : List (Option UInt8)) {program : List UInt8}

theorem load_begun (bytes : program.isEmpty = false) :
    (console config chance codes).load program =
      (.ok (), (begun config chance codes program).console) := by
  show Console.load _ _ = (_, (Console.load _ _).2)
  unfold Console.load Memory.load
  simp only [bytes]
  rfl

theorem devices_begun (program : List UInt8) :
    (begun config chance codes program).console.display = {} ∧
      (begun config chance codes program).console.calls = [] := by
  show (Console.load _ _).2.display = {} ∧ (Console.load _ _).2.calls = []
  unfold Console.load
  split
  · exact ⟨rfl, rfl⟩
  · exact ⟨rfl, rfl⟩

theorem works_begun (program : List UInt8) : (begun config chance codes program).console.Works := by
  have new : (console config chance codes).Works := ⟨fun _ => rfl, fun _ => rfl, fun _ => rfl, rfl⟩
  exact new.load program

theorem play_of_loaded (bytes : program.isEmpty = false) (size : Size) (limit : Nat) :
    play config chance program codes size limit =
      let run := (begun config chance codes program).run limit
      let taken := Painter.takeOver size
      let drawn := taken.1.drawAll size run.2.console.display.shown.reverse
      let restored :=
        if run.2.console.display.releases = 0 then (drawn.1, []) else drawn.1.release
      { result := run.1
        painting := .setRaw true :: taken.2 ++ drawn.2
        closing :=
          if run.1.isSome then restored.2 ++ restored.1.close ++ [.setRaw false] else []
        log := run.2.console.log } := by
  unfold play
  rw [load_begun config chance codes bytes]
  rfl

theorem result_play (bytes : program.isEmpty = false) (size : Size) (limit : Nat) :
    (play config chance program codes size limit).result =
      ((begun config chance codes program).run limit).1 := by
  rw [play_of_loaded config chance codes bytes]

/-- The calls of a run on its display: the pictures, one after the other, and once it has
stopped one handing back. -/
theorem follow_run (program : List UInt8) (size : Size) (p : Painter) (limit : Nat) :
    let run := (begun config chance codes program).run limit
    let calls := run.2.console.calls.reverse
    let drawn := p.drawAll size run.2.console.display.shown.reverse
    calls.count .release = (if run.1.isSome then 1 else 0) ∧
      run.2.console.display.releases = (if run.1.isSome then 1 else 0) ∧
      p.follow size calls run.2.console.display.shown.reverse =
        if run.1.isSome then (drawn.1.release.1, drawn.2 ++ drawn.1.release.2) else drawn := by
  intro run calls drawn
  obtain ⟨display, none⟩ := devices_begun config chance codes program
  obtain ⟨during, held, shown, releases, recorded⟩ :=
    Scheduler.run_calls (works_begun config chance codes program) (by rw [display]) limit
  rw [display] at shown releases
  have held' : .release ∉ during.reverse := fun mem => held (List.mem_reverse.mp mem)
  have enough : run.2.console.display.shown.reverse.length = during.reverse.count .draw := by
    rw [List.length_reverse, List.count_reverse, shown]
    exact Nat.zero_add _
  have inOrder : calls = during.reverse ++ if run.1.isSome then [.release] else [] := by
    show run.2.console.calls.reverse = _
    rw [recorded, none, List.append_nil, List.reverse_append]
    congr 1
    split
    · rfl
    · rfl
  rw [inOrder, Painter.follow_of_draws size p _ held' enough, List.count_append,
    List.count_eq_zero.mpr held']
  refine ⟨?_, releases.trans (Nat.zero_add _), ?_⟩
  · split
    · rfl
    · rfl
  · split
    · exact Prod.ext rfl (congrArg (drawn.2 ++ ·) (List.append_nil _))
    · exact Prod.ext rfl (List.append_nil _)

/-- What a session does to the terminal, one thing after the other: raw mode is switched on,
the screen is taken over, the calls of the run are followed, the painter is closed and raw
mode is switched off. -/
theorem ops_play (bytes : program.isEmpty = false) (size : Size) (limit : Nat) :
    let s := play config chance program codes size limit
    let run := (begun config chance codes program).run limit
    let taken := Painter.takeOver size
    let display := taken.1.follow size run.2.console.calls.reverse
      run.2.console.display.shown.reverse
    s.ops = .setRaw true :: (taken.2 ++ display.2) ++
      (if run.1.isSome then display.1.close ++ [.setRaw false] else []) := by
  intro s run taken display
  obtain ⟨-, releases, follows⟩ := follow_run config chance codes program size taken.1 limit
  have shows : display = _ := follows
  have played : s = _ := play_of_loaded config chance codes bytes size limit
  rw [shows, played, ops]
  dsimp only
  rw [releases]
  cases ((begun config chance codes program).run limit).1.isSome with
  | true => simp [taken]
  | false => simp [taken]

/-- While a run goes on the terminal is kept; once it has stopped the screen is given back, by
the run and not by the painter's closing, and raw mode is switched off last. -/
theorem display_play (program : List UInt8) (size : Size) (limit : Nat) :
    let run := (begun config chance codes program).run limit
    let taken := Painter.takeOver size
    let display := taken.1.follow size run.2.console.calls.reverse
      run.2.console.display.shown.reverse
    ∃ held, (∀ op ∈ held, op.keeps = true) ∧
      if run.1.isSome then taken.2 ++ display.2 = held ++ giveBack ∧ display.1.close = []
      else taken.2 ++ display.2 = held := by
  intro run taken display
  obtain ⟨-, -, follows⟩ := follow_run config chance codes program size taken.1 limit
  have shows : display = _ := follows
  let drawn := taken.1.drawAll size run.2.console.display.shown.reverse
  obtain ⟨unreleased, draws⟩ :=
    Painter.keeps_drawAll size taken.1 run.2.console.display.shown.reverse
  refine ⟨taken.2 ++ drawn.2, fun op mem => ?_, ?_⟩
  · rcases List.mem_append.mp mem with mem | mem
    · exact Painter.keeps_takeOver size op mem
    · exact draws op mem
  · rw [shows]
    split
    · refine ⟨?_, Painter.close_release unreleased⟩
      dsimp only
      rw [Painter.release_of_held unreleased, List.append_assoc]
    · rfl

/-- All of it in one piece: what is kept hold of, and what is given back at the end. -/
theorem ops_eq_held (bytes : program.isEmpty = false) (size : Size) (limit : Nat) :
    let s := play config chance program codes size limit
    ∃ held, (∀ op ∈ held, op.keeps = true) ∧
      s.ops = .setRaw true :: held ++
        (if s.result.isSome then giveBack ++ [.setRaw false] else []) := by
  intro s
  obtain ⟨held, keeps, ends⟩ := display_play config chance codes program size limit
  refine ⟨held, keeps, ?_⟩
  rw [result_play config chance codes bytes]
  refine (ops_play config chance codes bytes size limit).trans ?_
  split at ends
  · next ended =>
    rw [ends.1, ends.2, if_pos ended, if_pos ended]
    simp
  · next goesOn => rw [ends, if_neg goesOn, if_neg goesOn]

end

end Session

namespace Program

open Terminal

theorem bytes_of_load {directory : Directory} {rom : String} {program : List UInt8}
    (h : load directory rom = .ok program) : program.isEmpty = false := by
  unfold load at h
  split at h
  · cases h
  · split at h
    · cases h
    · next bytes =>
      obtain rfl := Except.ok.inj h
      exact Bool.eq_false_iff.mpr bytes

/-- **The terminal is always handed back.** Let a program be called on a terminal at rest, with
any options and files and whatever the polls find. At every moment the alternate screen is
shown in raw mode only, and once the program has ended the terminal is at rest again. If there
is no program to run, nothing is done to the terminal. Otherwise raw mode is switched on and
the screen taken over, the calls of the run on its display are carried out in their order, and
in the end the painter is closed and raw mode switched off. A run that ends does so by the
exit key or by a fault of the program; it hands the screen back once, by its last call, and
the closing of the painter adds nothing. -/
theorem terminal_handed_back (host : Host) (directory : Directory) (options : Options)
    (codes : List (Option UInt8)) (limit : Nat) (start : host.terminal.AtRest) :
    let s := sessionWith host directory options codes limit
    (∀ moment, moment <+: s.ops → (host.terminal.applyAll moment).Guarded) ∧
    (s.result.isSome → (host.terminal.applyAll s.ops).AtRest) ∧
    (∀ fault, load directory options.rom = .error fault →
      s.result = some (.error fault) ∧ s.ops = []) ∧
    ∀ program, load directory options.rom = .ok program →
      let size := (host.terminal.columns, host.terminal.rows)
      let run := (Session.begun options.config host.chance codes program).run limit
      let calls := run.2.console.calls.reverse
      let taken := Painter.takeOver size
      let display := taken.1.follow size calls run.2.console.display.shown.reverse
      s.result = run.1 ∧
      s.ops = .setRaw true :: (taken.2 ++ display.2) ++
        (if run.1.isSome then display.1.close ++ [.setRaw false] else []) ∧
      ∀ result, run.1 = some result →
        (result = .ok () ∨ ∃ fault, result = .error fault ∧ fault.OfProgram) ∧
        calls.count .release = 1 ∧ display.1.close = [] ∧
        ∃ before, s.ops = before ++ giveBack ++ [.setRaw false] ∧
          .showCursor ∉ before ∧ .leaveAlternate ∉ before := by
  intro s
  cases loaded : load directory options.rom with
  | error fault =>
    have untouched : s = .failed fault := by
      show sessionWith host directory options codes limit = _
      rw [sessionWith, loaded]
    rw [untouched]
    refine ⟨fun moment before => ?_, fun _ => start, ?_, fun program h => by cases h⟩
    · obtain rfl := List.prefix_nil.mp before
      intro alternate
      cases alternate.symm.trans start.onMain
    · rintro _ ⟨⟩
      exact ⟨rfl, rfl⟩
  | ok program =>
    have bytes := bytes_of_load loaded
    let size := (host.terminal.columns, host.terminal.rows)
    have played : s = .play options.config host.chance program codes size limit := by
      show sessionWith host directory options codes limit = _
      rw [sessionWith, loaded]
    obtain ⟨held, keeps, inOne⟩ :=
      Session.ops_eq_held options.config host.chance codes bytes size limit
    rw [← played] at inOne
    refine ⟨?_, fun ended => ?_, ?_, ?_⟩
    · rw [inOne]
      exact staysGuarded_held start keeps _
    · rw [inOne, if_pos ended, applyAll_append]
      exact atRest_giveBack _
    · rintro _ ⟨⟩
    · rintro _ ⟨⟩
      intro _ run calls taken display
      have result : s.result = run.1 := by rw [played, Session.result_play _ _ _ bytes]
      have ops := Session.ops_play options.config host.chance codes bytes size limit
      rw [← played] at ops
      refine ⟨result, ops, fun outcome ended => ?_⟩
      have stopped : run.1.isSome = true := by rw [ended]; rfl
      obtain ⟨once, -⟩ := Session.follow_run options.config host.chance codes program size
        taken.1 limit
      obtain ⟨_, -, closed⟩ :=
        Session.display_play options.config host.chance codes program size limit
      rw [if_pos stopped] at once closed
      have works := Session.works_begun options.config host.chance codes program
      refine ⟨Scheduler.ends_of_run works (Prod.ext ended rfl), once, closed.2,
        .setRaw true :: held, ?_, ?_, ?_⟩
      · rw [inOne, result, if_pos stopped, List.append_assoc]
      · exact List.not_mem_cons_of_ne_of_not_mem (by simp) (notMem_of_keeps keeps rfl)
      · exact List.not_mem_cons_of_ne_of_not_mem (by simp) (notMem_of_keeps keeps rfl)

/-- A run that the exit key ends while it waits for a key. -/
theorem terminal_handed_back_after_wait :
    let directory : Directory := { files := [(.inside [[0x61]], [0xF0, 0x0A])] }
    let options : Options := { rom := "a" }
    let s := sessionWith {} directory options [some exitKey] 1
    let terminal : Terminal := {}
    terminal.AtRest ∧ load directory options.rom = .ok [0xF0, 0x0A] ∧ s.result = some (.ok ()) ∧
      (terminal.applyAll s.ops).AtRest ∧
      ∃ before, s.ops = before ++ giveBack ++ [.setRaw false] ∧
        .showCursor ∉ before ∧ .leaveAlternate ∉ before := by
  intro directory options s terminal
  have start : terminal.AtRest := ⟨rfl, rfl, rfl⟩
  obtain ⟨loaded, exits⟩ : load directory options.rom = .ok [0xF0, 0x0A] ∧
      ((Session.begun options.config 0 [some exitKey] [0xF0, 0x0A]).run 1).1 = some (.ok ()) := by
    decide +kernel
  obtain ⟨-, atRest, -, ran⟩ :=
    terminal_handed_back {} directory options [some exitKey] 1 start
  obtain ⟨result, -, ends⟩ := ran _ loaded
  obtain ⟨-, -, -, before, ops, kept⟩ := ends _ exits
  have ended : s.result = some (.ok ()) := result.trans exits
  refine ⟨start, loaded, ended, atRest ?_, before, ops, kept⟩
  rw [ended]
  rfl

end Program

end Chip8
