import Chip8.Live
import Chip8.Proofs.PixelCells
import Chip8.Proofs.TerminalHandedBack
import Chip8.Proofs.TypedKeys
import Chip8.Proofs.WarningsOnly

/-!
# Rounds of a live run

The command makes rounds until the run ends: it hands over what was typed, makes a frame, sends
what was painted and writes the log. Here what is typed before each frame and when the frame is
over is given as a list, so that rounds are a function.

  * `Live.rounds` — the rounds of a run, and what they come to, a `Course`.
  * `rounds_cases` — what becomes of the first round: its frame is completed, or waits for a key
    that nobody has typed (`Dry`), or is the last one.
  * `log_rounds` — the rounds have nothing to tell.
  * `ops_rounds` — the rounds paint, and the painter stays right about the screen (`Paints`); the
    last one gives the terminal back.
  * `codes_rounds` — where nothing is typed, no codes are handed over.
-/

namespace Chip8

namespace Live

open Terminal

/-! ## Rounds -/

/-- What is typed before a frame of a live run, and when the frame is over. -/
structure Round where
  typed : List UInt8
  now : Instant

/-- What some rounds of a live run come to. -/
structure Course where
  /-- How the run ended, if it has ended. -/
  result : Option (Except Fault Unit)
  /-- The run after the rounds. -/
  live : Live
  ops : List Op := []
  log : List Log.Entry := []
  /-- The codes that were handed over. -/
  codes : List (Option UInt8) := []

/-- The course with a round before it. -/
def Course.behind (ops : List Op) (log : List Log.Entry) (codes : List (Option UInt8))
    (course : Course) : Course :=
  { course with
    ops := ops ++ course.ops
    log := log ++ course.log
    codes := codes ++ course.codes }

/-- Make rounds until the run ends. -/
def rounds (size : Size) : List Round → Live → Course
  | [], live => { result := none, live }
  | r :: rest, live =>
    let codes := (live.reader.type r.typed).codes
    match live.round size r.typed with
    | (.completed, ops, log, live) =>
      (rounds size rest (live.idle r.now).2).behind ops log.entries codes
    | (.waiting, ops, log, live) => (rounds size rest live).behind ops log.entries codes
    | (.ended result, ops, log, live) =>
      { result := some result, live, ops, log := log.entries, codes }

variable {live : Live} {size : Size} {r : Round} {rest : List Round}

/-! ## Frames of a live run -/

theorem scheduler_feed (live : Live) (typed : List UInt8) :
    (live.feed typed).scheduler = live.scheduler.within {} (live.reader.type typed).codes := by
  simp only [feed, withConsole, Scheduler.within, Console.within, Display.after,
    KeySource.followed, Log.behind, List.append_nil, KeyReader.codes]

theorem scheduler_paint (live : Live) (size : Size) :
    (live.paint size).1.scheduler = live.scheduler := by
  unfold paint
  split
  · rfl
  · rfl

/-- Whether the program waits for a key that nobody has typed. -/
def Dry (live : Live) : Prop :=
  live.scheduler.frame.1 = .ok .exit ∧ some exitKey ∉ live.scheduler.console.keys.entries

/-- The run where a frame has been made of it and painted, and what was painted. -/
def painted (live : Live) (size : Size) : Live × List Op :=
  ({ live with scheduler := live.scheduler.frame.2 } : Live).paint size

theorem scheduler_painted (live : Live) (size : Size) :
    (live.painted size).1.scheduler = live.scheduler.frame.2 := scheduler_paint _ size

/-- The end of a run whose frame has not been completed. -/
def ending (live : Live) : Except Fault Unit × Scheduler :=
  live.scheduler.frame.2.finish (live.scheduler.frame.1.map fun _ => ())

/-- How a live run gets on by a frame. -/
inductive Advances (size : Size) (live : Live) (outcome : Progress × List Op × Live) : Prop where
  | completed (proceeds : live.scheduler.frame.1 = .ok .proceed)
      (eq : outcome = (.completed, (live.painted size).2, (live.painted size).1.relieved))
  | waiting (dry : live.Dry)
      (eq : outcome =
        (.waiting, (live.painted size).2, { live with painter := (live.painted size).1.painter }))
  | ended (ends : live.scheduler.frame.1 ≠ .ok .proceed) (fed : ¬ live.Dry)
      (eq : outcome =
        (.ended live.ending.1,
          (live.painted size).2 ++ ((live.painted size).1.painter.close ++ [.setRaw false]),
          { (live.painted size).1 with scheduler := live.ending.2 }))

theorem advance_eq (live : Live) (size : Size) :
    let after := (live.painted size).1
    let ended (result : Except Fault Unit) : Progress × List Op × Live :=
      let finished := after.finish result
      (finished.1, (live.painted size).2 ++ finished.2.1, finished.2.2)
    live.advance size =
      match live.scheduler.frame.1 with
      | .ok .proceed => (.completed, (live.painted size).2, after.relieved)
      | .ok .exit =>
        if live.exitTyped then ended (.ok ())
        else (.waiting, (live.painted size).2, { live with painter := after.painter })
      | .error fault => ended (.error fault) := rfl

theorem advance_cases (size : Size) (live : Live) : Advances size live (live.advance size) := by
  have typed : live.exitTyped = true ↔ some exitKey ∈ live.scheduler.console.keys.entries :=
    List.contains_iff_mem
  have closed (result : Except Fault Unit) : (live.painted size).1.finish result =
      (.ended (live.scheduler.frame.2.finish result).1,
        (live.painted size).1.painter.close ++ [.setRaw false],
        { (live.painted size).1 with scheduler := (live.scheduler.frame.2.finish result).2 }) := by
    rw [finish, scheduler_painted]
  rw [advance_eq]
  cases outcome : live.scheduler.frame.1 with
  | error fault =>
    have ends : live.scheduler.frame.1 ≠ .ok .proceed := fun proceeds => by
      cases outcome.symm.trans proceeds
    refine .ended ends (fun dry => by cases outcome.symm.trans dry.1) ?_
    simp only [closed, ending, outcome]
    rfl
  | ok flow =>
    cases flow with
    | proceed => exact .completed outcome rfl
    | exit =>
      have ends : live.scheduler.frame.1 ≠ .ok .proceed := fun proceeds => by
        cases outcome.symm.trans proceeds
      cases exits : live.exitTyped with
      | true =>
        refine .ended ends (fun dry => dry.2 (typed.mp exits)) ?_
        simp only [closed, ending, outcome]
        rfl
      | false =>
        refine .waiting ⟨outcome, fun mem => ?_⟩ rfl
        cases exits.symm.trans (typed.mpr mem)

/-- The run after a round in which a frame was completed. -/
def resumed (live : Live) (size : Size) (r : Round) : Live :=
  (((live.feed r.typed).painted size).1.relieved.takeLog.2.idle r.now).2

/-- The run after a round whose frame has to be made again. -/
def retried (live : Live) (size : Size) (r : Round) : Live :=
  { live.feed r.typed with painter := ((live.feed r.typed).painted size).1.painter }.takeLog.2

/-- The run after the last round. -/
def stopped (live : Live) (size : Size) (r : Round) : Live :=
  { ((live.feed r.typed).painted size).1 with scheduler := (live.feed r.typed).ending.2 }.takeLog.2

/-- What rounds come to, by what becomes of the first of them. -/
inductive Begins (size : Size) (live : Live) (r : Round) (rest : List Round) : Prop where
  | completed (proceeds : (live.feed r.typed).scheduler.frame.1 = .ok .proceed)
      (eq : rounds size (r :: rest) live =
        (rounds size rest (live.resumed size r)).behind ((live.feed r.typed).painted size).2
          (live.feed r.typed).scheduler.frame.2.console.log.entries
          (live.reader.type r.typed).codes)
  | waiting (dry : (live.feed r.typed).Dry)
      (eq : rounds size (r :: rest) live =
        (rounds size rest (live.retried size r)).behind ((live.feed r.typed).painted size).2
          live.scheduler.console.log.entries (live.reader.type r.typed).codes)
  | ended (ends : (live.feed r.typed).scheduler.frame.1 ≠ .ok .proceed)
      (fed : ¬ (live.feed r.typed).Dry)
      (eq : rounds size (r :: rest) live =
        { result := some (live.feed r.typed).ending.1
          live := live.stopped size r
          ops := ((live.feed r.typed).painted size).2 ++
            (((live.feed r.typed).painted size).1.painter.close ++ [.setRaw false])
          log := (live.feed r.typed).ending.2.console.log.entries
          codes := (live.reader.type r.typed).codes })

theorem rounds_cases (size : Size) (live : Live) (r : Round) (rest : List Round) :
    Begins size live r rest := by
  cases advance_cases size (live.feed r.typed) with
  | completed proceeds eq =>
    refine .completed proceeds ?_
    rw [← scheduler_painted _ size]
    simp only [rounds, round, eq]
    rfl
  | waiting dry eq =>
    refine .waiting dry ?_
    simp only [rounds, round, eq]
    rfl
  | ended ends fed eq =>
    refine .ended ends fed ?_
    simp only [rounds, round, eq]
    rfl

/-! ## The log of a live run -/

theorem log_ending (quiet : live.scheduler.console.log = {}) :
    live.ending.2.console.log = {} := by
  have framed : live.scheduler.frame.2.console.log = {} :=
    (Scheduler.log_frame (by rw [quiet])).trans quiet
  show live.scheduler.frame.2.console.log.add _ = {}
  rw [framed]
  rfl

/-- Of rounds there is nothing to tell. -/
theorem log_rounds (size : Size) (rs : List Round) (quiet : live.scheduler.console.log = {}) :
    (rounds size rs live).log = [] := by
  induction rs generalizing live with
  | nil => rfl
  | cons r rest ih =>
    have fed : (live.feed r.typed).scheduler.console.log = {} := quiet
    have framed : (live.feed r.typed).scheduler.frame.2.console.log = {} :=
      (Scheduler.log_frame (by rw [fed])).trans fed
    cases rounds_cases size live r rest with
    | completed _ eq =>
      have next : (live.resumed size r).scheduler.console.log = {} := by
        show ((live.feed r.typed).painted size).1.scheduler.console.log.emptied = {}
        rw [scheduler_painted, framed]
        rfl
      rw [eq, framed]
      exact ih next
    | waiting _ eq =>
      have next : (live.retried size r).scheduler.console.log = {} := congrArg Log.emptied fed
      rw [eq, quiet]
      exact ih next
    | ended _ _ eq =>
      rw [eq, log_ending fed]
      rfl

/-! ## The screen of a live run -/

theorem close_of_held {p : Painter} (held : p.released = false) : p.close = giveBack := by
  rw [Painter.close, Painter.release_of_held held]
  rfl

/-- What operations do that a painter makes to become another one. -/
structure Paints (size : Size) (p p' : Painter) (ops : List Op) : Prop where
  held : p'.released = p.released
  keeps : ∀ op ∈ ops, op.keeps = true
  shows : ∀ {t : Terminal} {x y : Nat}, x < size.1 ∧ y < size.2 → (x, y) ∈ boxPlaces →
    t.Shows size x y (p.sentCell x y) → (t.applyAll ops).Shows size x y (p'.sentCell x y)

theorem Paints.nil (size : Size) (p : Painter) : Paints size p p [] where
  held := rfl
  keeps _ mem := absurd mem List.not_mem_nil
  shows _ _ shows := shows

theorem Paints.append {p p' p'' : Painter} {first second : List Op} (h : Paints size p p' first)
    (h' : Paints size p' p'' second) : Paints size p p'' (first ++ second) where
  held := h'.held.trans h.held
  keeps op mem := (List.mem_append.mp mem).elim (h.keeps op) (h'.keeps op)
  shows visible inBox shows := by
    rw [applyAll_append]
    exact h'.shows visible inBox (h.shows visible inBox shows)

theorem paints_paint (live : Live) (size : Size) :
    Paints size live.painter (live.paint size).1.painter (live.paint size).2 := by
  unfold paint
  split
  · next picture newest =>
    obtain ⟨held, keeps⟩ := Painter.keeps_draw size live.painter picture
    exact ⟨held, keeps, fun visible inBox shows =>
      Painter.shows_draw shows size picture visible inBox⟩
  · exact Paints.nil size live.painter

theorem paints_painted (live : Live) (size : Size) :
    Paints size live.painter (live.painted size).1.painter (live.painted size).2 :=
  paints_paint { live with scheduler := live.scheduler.frame.2 } size

/-- Rounds paint, and the last one gives the terminal back. -/
theorem ops_rounds (size : Size) (rs : List Round) (held : live.painter.released = false) :
    ∃ painting, Paints size live.painter (rounds size rs live).live.painter painting ∧
      (rounds size rs live).ops = painting ++
        (if (rounds size rs live).result.isSome then giveBack ++ [.setRaw false] else []) := by
  induction rs generalizing live with
  | nil => exact ⟨[], Paints.nil size _, rfl⟩
  | cons r rest ih =>
    have paints := paints_painted (live.feed r.typed) size
    cases rounds_cases size live r rest with
    | completed _ eq =>
      have kept : (live.resumed size r).painter.released = false := paints.held.trans held
      obtain ⟨painting, later, ops⟩ := ih kept
      rw [eq]
      exact ⟨_, paints.append later, (congrArg _ ops).trans (List.append_assoc _ _ _).symm⟩
    | waiting _ eq =>
      have kept : (live.retried size r).painter.released = false := paints.held.trans held
      obtain ⟨painting, later, ops⟩ := ih kept
      rw [eq]
      exact ⟨_, paints.append later, (congrArg _ ops).trans (List.append_assoc _ _ _).symm⟩
    | ended _ _ eq =>
      rw [eq, close_of_held (paints.held.trans held)]
      exact ⟨_, paints, rfl⟩

/-! ## Keys that were typed ahead -/

theorem reader_painted (live : Live) (size : Size) :
    (live.painted size).1.reader = live.reader := by
  unfold painted paint
  split
  · rfl
  · rfl

/-- Where nothing is left to be taken up and nothing is typed, no codes are handed over. -/
theorem codes_rounds (size : Size) (rs : List Round)
    (drained : live.reader.drain = ([], live.reader)) (untyped : ∀ r ∈ rs, r.typed = []) :
    (rounds size rs live).codes = [] := by
  induction rs generalizing live with
  | nil => rfl
  | cons r rest ih =>
    obtain ⟨nothing, later⟩ := List.forall_mem_cons.mp untyped
    have same : live.reader.type r.typed = live.reader := by
      rw [nothing, KeyReader.type_nil]
    have codes : (live.reader.type r.typed).codes = [] := by
      rw [same, KeyReader.codes, drained]
    have reader : (live.feed r.typed).reader = live.reader := by
      show (live.reader.type r.typed).drain.2 = _
      rw [same, drained]
    cases rounds_cases size live r rest with
    | completed _ eq =>
      have next : (live.resumed size r).reader = live.reader :=
        (reader_painted _ size).trans reader
      rw [eq, codes]
      exact ih (by rw [next, drained]) later
    | waiting _ eq =>
      have next : (live.retried size r).reader = live.reader := reader
      rw [eq, codes]
      exact ih (by rw [next, drained]) later
    | ended _ _ eq => rw [eq, codes]

end Live

end Chip8
