import Chip8.Program
import Chip8.Proofs.DryFrames
import Chip8.Proofs.LiveRounds

/-!
# Live runs are sessions

A session has its keys from the start, a live run takes them as they are typed. They come to the
same: for every list of rounds there is a session with the codes that were handed over, in the
order in which they were, that ends as the rounds do, has painted the same and told the same. Where
the live run polled before the next key was typed, the session finds nothing at that place of its
keys; and where a frame was left to be made again, the session makes it once, with the keys that
came in the meantime.

  * `Amounts` — the rounds of a live run beside the frames of a run that has keys to come. The
    three ways in which a round turns out are `amounts_completed`, `amounts_waiting` and
    `amounts_ended`; what is kept between rounds is `Settled`.
  * `amounts_rounds` — rounds come to what frames come to, by induction on the rounds. The gap in
    the keys is left where a frame has polled in vain and something is typed later.
  * `run_opened`, `isSession_of_amounts` — the frames are those of a session, and what was painted
    round by round is what the session paints.

`live_run_is_session` is the result for the program, `live_run_hands_back` says what it means for
the terminal, and `live_run_of_typed_ahead` goes on to how the program exits.
-/

namespace Chip8

namespace Terminal

/-- The cells of a box with a picture, or those of a screen before the first one. -/
def pictureCell : Option Picture → Nat → Nat → Cell
  | some picture => boxCell (dotsOf picture)
  | none => fun _ _ => .blank

theorem Painter.sentCell_drawn (size : Size) (pictures : List Picture) :
    ((takeOver size).1.drawAll size pictures).1.sentCell = pictureCell pictures.getLast? := by
  rcases List.eq_nil_or_concat pictures with rfl | ⟨earlier, last, rfl⟩
  · rfl
  · rw [List.concat_eq_append, sentCell_drawAll, List.getLast?_concat]
    rfl

end Terminal

namespace Scheduler

/-! ## Runs with another pacer -/

theorem frame_pacer (s : Scheduler) (pacer : Pacer) :
    ({ s with pacer } : Scheduler).frame = (s.frame.1, { s.frame.2 with pacer }) := by
  simp only [frame]
  rcases batch s.dialect s.cycles s.console with ⟨fault | flow, c⟩
  · rfl
  · cases flow with
    | exit => rfl
    | proceed =>
      simp only
      rcases afterBatch c with ⟨fault | flow, c'⟩
      · rfl
      · cases flow with
        | exit => rfl
        | proceed => rfl

theorem runFrames_pacer (limit : Nat) (s : Scheduler) (pacer : Pacer) :
    runFrames limit { s with pacer } = ((runFrames limit s).1, { (runFrames limit s).2 with pacer }) := by
  induction limit generalizing s with
  | zero => rfl
  | succ limit ih =>
    have paced := frame_pacer s pacer
    by_cases proceeds : s.frame.1 = .ok .proceed
    · rw [runFrames_of_proceed limit proceeds,
        runFrames_of_proceed limit ((congrArg Prod.fst paced).trans proceeds), paced]
      exact ih s.frame.2
    · rw [runFrames_of_end limit proceeds, runFrames_of_end limit (by rw [paced]; exact proceeds),
        paced]

end Scheduler

namespace Session

open Terminal

variable (config : Config) (chance : UInt64) (codes : List (Option UInt8)) {program : List UInt8}

/-! ## Sessions -/

theorem begun_within (program : List UInt8) :
    begun config chance codes program = (begun config chance [] program).within {} codes := by
  have switchedOn : console config chance codes = (console config chance []).within {} codes := rfl
  unfold begun
  rw [switchedOn]
  unfold Console.load
  rw [Console.machine_within]
  cases (console config chance []).machine.memory.load program with
  | error fault => rfl
  | ok memory =>
    simp only [Scheduler.within]
    split
    · rfl
    · rfl

theorem log_begun (program : List UInt8) :
    (begun config chance codes program).console.log.level = .warn := by
  show (Console.load _ _).2.log.level = _
  unfold Console.load
  split
  · rfl
  · simp only
    split
    · rfl
    · rfl

theorem keys_begun (program : List UInt8) :
    (begun config chance codes program).console.keys = { entries := codes } := by
  show (Console.load _ _).2.keys = _
  unfold Console.load
  split
  · rfl
  · rfl

theorem log_play (bytes : program.isEmpty = false) (size : Size) (limit : Nat) :
    (play config chance program codes size limit).log =
      ((begun config chance codes program).run limit).2.console.log := by
  rw [play_of_loaded config chance codes bytes]

/-- The end of a session is that of a run that has stopped, whoever gives back what. -/
theorem closing_play (bytes : program.isEmpty = false) (size : Size) (limit : Nat) :
    (play config chance program codes size limit).closing =
      if (play config chance program codes size limit).result.isSome then
        giveBack ++ [.setRaw false]
      else [] := by
  obtain ⟨-, releases, -⟩ :=
    follow_run config chance codes program size (Painter.takeOver size).1 limit
  rw [play_of_loaded config chance codes bytes]
  dsimp only
  rw [releases]
  split
  · next stopped =>
    obtain ⟨unreleased, -⟩ := Painter.keeps_drawAll size (Painter.takeOver size).1
      ((begun config chance codes program).run limit).2.console.display.shown.reverse
    rw [if_neg Nat.one_ne_zero, Painter.close_release unreleased,
      Painter.release_of_held unreleased, List.append_nil]
  · rfl

/-- What a session has painted is the picture that its run has shown last. -/
theorem shows_play (bytes : program.isEmpty = false) (t : Terminal) (limit : Nat) {x y : Nat}
    (visible : x < t.columns ∧ y < t.rows) (inBox : (x, y) ∈ boxPlaces) :
    (t.applyAll (play config chance program codes (t.columns, t.rows) limit).painting).Shows
      (t.columns, t.rows) x y
      (pictureCell ((begun config chance codes program).run limit).2.console.display.shown.head?
        x y) := by
  have taken := Painter.shows_takeOver (t.apply (.setRaw true)) x y
  have drawn := Painter.shows_drawAll taken (t.columns, t.rows)
    ((begun config chance codes program).run limit).2.console.display.shown.reverse visible inBox
  have last := Painter.sentCell_drawn (t.columns, t.rows)
    ((begun config chance codes program).run limit).2.console.display.shown.reverse
  rw [← applyAll_append] at drawn
  rw [List.getLast?_reverse] at last
  rw [← last, play_of_loaded config chance codes bytes]
  exact drawn

end Session

namespace Live

open Terminal
open Scheduler (runFrames)

variable {live : Live} {size : Size} {r : Round} {rest : List Round}

/-! ## The session beside a live run -/

/-- The painter has sent the newest picture: the one of the frames that were completed, or the
one of a frame that waits. The number is that of the frames of the latter kind. -/
inductive Sent (past : Past) (live : Live) : Nat → Prop where
  | completed
      (sent : live.painter.sentCell =
        pictureCell (live.scheduler.console.display.shown ++ past.shown).head?) : Sent past live 0
  | waiting (dry : live.Dry)
      (sent : live.painter.sentCell =
        pictureCell live.scheduler.frame.2.console.display.shown.head?) : Sent past live 1

theorem sentCell_painted (live : Live) (size : Size) :
    (live.painted size).1.painter.sentCell =
      if live.scheduler.frame.2.console.display.shown = [] then live.painter.sentCell
      else pictureCell live.scheduler.frame.2.console.display.shown.head? := by
  unfold painted paint
  cases live.scheduler.frame.2.console.display.shown with
  | nil => rfl
  | cons picture earlier => rfl

/-- A frame that runs dry shows a picture, also if it is made anew with more keys. -/
theorem shown_of_dry {past : Past} (works : (live.scheduler.within past []).console.Works)
    (dry : live.Dry) (more : List (Option UInt8)) :
    (live.scheduler.within {} more).frame.2.console.display.shown ≠ [] := by
  have shows := Scheduler.shown_frame_of_dry (s := live.scheduler) works.draws dry.1 dry.2 {} more
  exact List.ne_nil_of_length_pos (Nat.lt_of_le_of_lt (Nat.zero_le _) shows)

theorem sentCell_painted_feed {past : Past} {made : Nat}
    (works : (live.scheduler.within past []).console.Works) (sent : Sent past live made)
    (size : Size) (typed : List UInt8) :
    ((live.feed typed).painted size).1.painter.sentCell =
      pictureCell ((live.feed typed).scheduler.frame.2.console.display.shown ++ past.shown).head? := by
  rw [sentCell_painted]
  split
  · next nothing =>
    cases sent with
    | completed sent =>
      have before : live.scheduler.console.display.shown = [] := by
        have suffix := Scheduler.suffix_shown_of_frame (live.feed typed).scheduler
        rw [nothing] at suffix
        exact List.suffix_nil.mp suffix
      rw [before] at sent
      rw [nothing]
      exact sent
    | waiting dry =>
      rw [scheduler_feed] at nothing
      exact absurd nothing (shown_of_dry works dry _)
  · next something => rw [List.head?_append_of_ne_nil _ something]

/-- What the rounds of a live run come to, beside the run that is watched for `limit` frames and
has the keys `later` to come. -/
structure Amounts (past : Past) (live : Live) (course : Course) (later : List (Option UInt8))
    (limit : Nat) : Prop where
  codes : later.reduceOption = course.codes.reduceOption
  ahead : course.codes = [] → later = []
  result : ∀ result, course.result = some result →
    (runFrames limit (live.scheduler.within past later)).1 = some result
  goesOn : ({ result := (runFrames limit (live.scheduler.within past later)).1 } : Session).goesOn
    (live.scheduler.console.keys.entries ++ later) = course.result.isNone
  sent : course.live.painter.sentCell = pictureCell
    (runFrames limit (live.scheduler.within past later)).2.console.display.shown.head?

theorem goesOn_of_dry (dry : live.Dry) :
    ({ result := some (.ok ()) } : Session).goesOn live.scheduler.console.keys.entries = true := by
  rw [Session.goesOn, Bool.not_eq_true', ← Bool.not_eq_true, List.contains_iff_mem]
  exact dry.2

theorem not_goesOn_of_fed (ends : live.scheduler.frame.1 ≠ .ok .proceed) (fed : ¬ live.Dry) :
    ({ result := some (live.scheduler.frame.1.map fun _ => ()) } : Session).goesOn
      live.scheduler.console.keys.entries = false := by
  cases outcome : live.scheduler.frame.1 with
  | error fault => rfl
  | ok flow =>
    cases flow with
    | proceed => exact absurd outcome ends
    | exit =>
      show (!List.contains _ _) = false
      rw [Bool.not_eq_false', List.contains_iff_mem]
      exact Decidable.byContradiction fun untyped => fed ⟨outcome, untyped⟩

theorem amounts_nil {past : Past} {made : Nat}
    (works : (live.scheduler.within past []).console.Works) (sent : Sent past live made) :
    Amounts past live { result := none, live } [] made := by
  cases sent with
  | completed sent => exact ⟨rfl, fun _ => rfl, fun _ is => (by cases is), rfl, sent⟩
  | waiting dry sent =>
    have frame := Scheduler.frame_within_nil live.scheduler past
    have run : runFrames 1 (live.scheduler.within past []) =
        (some (.ok ()), live.scheduler.frame.2.within past []) := by
      rw [Scheduler.runFrames_of_exit 0 ((congrArg Prod.fst frame).trans dry.1), frame]
    refine ⟨rfl, fun _ => rfl, fun _ is => (by cases is), ?_, ?_⟩
    · rw [run, List.append_nil]
      exact goesOn_of_dry dry
    · have shown := shown_of_dry works dry []
      rw [Scheduler.within_nil] at shown
      rw [run]
      show live.painter.sentCell = pictureCell (_ ++ past.shown).head?
      rw [sent, List.head?_append_of_ne_nil _ shown]

theorem goesOn_congr {result : Option (Except Fault Unit)} {codes codes' : List (Option UInt8)}
    (same : some exitKey ∈ codes ↔ some exitKey ∈ codes') :
    ({ result } : Session).goesOn codes = ({ result } : Session).goesOn codes' := by
  have contains : codes.contains (some exitKey) = codes'.contains (some exitKey) := by
    rw [Bool.eq_iff_iff, List.contains_iff_mem, List.contains_iff_mem, same]
  rcases result with _ | _ | _
  · rfl
  · rfl
  · exact congrArg (!·) contains

/-- A round in front of others hands over its codes and may leave a gap behind them; what counts
is that the runs and what they know of the exit key are the same. -/
theorem Amounts.behind {past past' : Past} {live' : Live} {course : Course}
    {new gap later : List (Option UInt8)} {limit limit' : Nat}
    (h : Amounts past' live' course later limit)
    (ran : let run := runFrames limit' (live.scheduler.within past (new ++ (gap ++ later)))
      let run' := runFrames limit (live'.scheduler.within past' later)
      run.1 = run'.1 ∧ run.2.console = run'.2.console)
    (typed : some exitKey ∈ live'.scheduler.console.keys.entries ↔
      some exitKey ∈ live.scheduler.console.keys.entries ++ new)
    (left : Gap later gap)
    (ops : List Op) (log : List Log.Entry) :
    Amounts past live (course.behind ops log new) (new ++ (gap ++ later)) limit' := by
  refine ⟨?_, fun none => ?_, fun result ended => ?_, ?_, ?_⟩
  · rw [List.reduceOption_append, List.reduceOption_append, left.noCodes, h.codes, List.nil_append]
    exact (List.reduceOption_append _ _).symm
  · obtain ⟨none, none'⟩ := List.append_eq_nil_iff.mp none
    rw [none, h.ahead none', left.ahead (h.ahead none')]
    rfl
  · rw [ran.1]
    exact h.result result ended
  · rw [ran.1]
    refine Eq.trans (goesOn_congr ?_) h.goesOn
    rw [← List.append_assoc, List.mem_append, ← typed, List.mem_append, or_iff_right left.noExit,
      List.mem_append]
  · rw [ran.2]
    exact h.sent

theorem scheduler_resumed (live : Live) (size : Size) (r : Round) :
    ∃ pacer, (live.resumed size r).scheduler =
      { (live.feed r.typed).scheduler.frame.2.relieved with pacer } := by
  rw [← scheduler_painted _ size]
  exact ⟨_, rfl⟩

theorem entries_feed (live : Live) (typed : List UInt8) :
    (live.feed typed).scheduler.console.keys.entries =
      live.scheduler.console.keys.entries ++ (live.reader.type typed).codes := rfl

theorem amounts_completed {past : Past} {course : Course} {later : List (Option UInt8)}
    {limit : Nat} (works : (live.scheduler.within past []).console.Works)
    (proceeds : (live.feed r.typed).scheduler.frame.1 = .ok .proceed)
    (h : Amounts (past.later (live.feed r.typed).scheduler.frame.2.console) (live.resumed size r)
      course later limit) (ops : List Op) (log : List Log.Entry) :
    ∃ later limit, Amounts past live (course.behind ops log (live.reader.type r.typed).codes)
      later limit := by
  obtain ⟨gap, left, frame⟩ :=
    Scheduler.frame_followed (s := (live.feed r.typed).scheduler) works.keys proceeds past later
  obtain ⟨pacer, next⟩ := scheduler_resumed live size r
  refine ⟨_, limit + 1, h.behind ?_ ?_ left ops log⟩
  · rw [← Scheduler.within_within, ← scheduler_feed,
      Scheduler.runFrames_of_proceed limit (congrArg Prod.fst frame), frame,
      Scheduler.within_relieved, next]
    have paced := Scheduler.runFrames_pacer limit
      ((live.feed r.typed).scheduler.frame.2.relieved.within
        (past.later (live.feed r.typed).scheduler.frame.2.console) later) pacer
    exact ⟨(congrArg Prod.fst paced).symm, (congrArg (fun x => x.2.console) paced).symm⟩
  · rw [← entries_feed, ← Scheduler.exitKey_mem_frame_iff proceeds, next]
    rfl

/-- An empty log is left as it is when it is taken. -/
theorem takeLog_of_quiet (quiet : live.scheduler.console.log = {}) : live.takeLog.2 = live := by
  obtain ⟨⟨⟨machine, display, keys, log, calls⟩, dialect, cycles, pacer, frames⟩, painter, reader⟩ :=
    live
  obtain rfl : log = {} := quiet
  rfl

theorem scheduler_retried (quiet : live.scheduler.console.log = {}) (size : Size) (r : Round) :
    (live.retried size r).scheduler = (live.feed r.typed).scheduler := by
  have untold : live.retried size r = _ := takeLog_of_quiet (quiet : _ = _)
  rw [untold]

theorem amounts_waiting {past : Past} {course : Course} {later : List (Option UInt8)}
    {limit : Nat} (quiet : live.scheduler.console.log = {})
    (h : Amounts past (live.retried size r) course later limit) (ops : List Op)
    (log : List Log.Entry) :
    ∃ later limit, Amounts past live (course.behind ops log (live.reader.type r.typed).codes)
      later limit := by
  have next := scheduler_retried quiet size r
  refine ⟨_, limit, h.behind ?_ ?_ (.nil later) ops log⟩
  · rw [next, scheduler_feed, Scheduler.within_within]
    exact ⟨rfl, rfl⟩
  · rw [next, entries_feed]

theorem works_feed {past : Past} (works : (live.scheduler.within past []).console.Works)
    (typed : List UInt8) : ((live.feed typed).scheduler.within past []).console.Works :=
  works.of_eq rfl rfl

theorem works_framed {past : Past} (works : (live.scheduler.within past []).console.Works) :
    (live.scheduler.frame.2.within past []).console.Works := by
  have frame := Scheduler.frame_within_nil live.scheduler past
  have last := Scheduler.works_frame works
  rw [frame] at last
  exact last

/-- On devices that work a run ends with what its last frame ended with. -/
theorem result_ending {past : Past} (works : (live.scheduler.within past []).console.Works) :
    live.ending.1 = live.scheduler.frame.1.map fun _ => () := by
  unfold ending
  cases live.scheduler.frame.1 with
  | error fault => rfl
  | ok flow =>
    have released := (works_framed works).released
    rw [Scheduler.within, Console.display_within, Display.release_after] at released
    exact Scheduler.finish_of_released released

theorem amounts_ended {past : Past} {course : Course} {made : Nat}
    (works : (live.scheduler.within past []).console.Works) (sent : Sent past live made)
    (ends : (live.feed r.typed).scheduler.frame.1 ≠ .ok .proceed)
    (fed : ¬ (live.feed r.typed).Dry) (result : course.result = some (live.feed r.typed).ending.1)
    (codes : course.codes = (live.reader.type r.typed).codes)
    (painter : course.live.painter = ((live.feed r.typed).painted size).1.painter) :
    Amounts past live course course.codes 1 := by
  have frame := Scheduler.frame_within_nil (live.feed r.typed).scheduler past
  have run : runFrames 1 (live.scheduler.within past course.codes) =
      (some ((live.feed r.typed).scheduler.frame.1.map fun _ => ()),
        (live.feed r.typed).scheduler.frame.2.within past []) := by
    rw [codes, ← List.append_nil (KeyReader.codes _), ← Scheduler.within_within, ← scheduler_feed,
      Scheduler.runFrames_of_end 0 (by rw [frame]; exact ends), frame]
  rw [result_ending (works_feed works r.typed)] at result
  refine ⟨rfl, id, fun outcome is => ?_, ?_, ?_⟩
  · rw [run, ← is, result]
  · rw [run, result, codes, ← entries_feed]
    exact not_goesOn_of_fed ends fed
  · rw [run, painter]
    exact sentCell_painted_feed works sent size r.typed

/-- What holds of a live run between its rounds. -/
structure Settled (past : Past) (live : Live) (made : Nat) : Prop where
  works : (live.scheduler.within past []).console.Works
  quiet : live.scheduler.console.log = {}
  sent : Sent past live made

theorem settled_resumed {past : Past} {made : Nat} (h : Settled past live made) (size : Size)
    (r : Round) :
    Settled (past.later (live.feed r.typed).scheduler.frame.2.console) (live.resumed size r) 0 := by
  obtain ⟨pacer, next⟩ := scheduler_resumed live size r
  have fed : (live.feed r.typed).scheduler.console.log = {} := h.quiet
  refine ⟨?_, ?_, .completed ?_⟩
  · rw [next]
    exact works_framed (works_feed h.works r.typed)
  · rw [next]
    show (live.feed r.typed).scheduler.frame.2.console.log.emptied = {}
    rw [Scheduler.log_frame (by rw [fed]), fed]
    rfl
  · rw [next]
    exact sentCell_painted_feed h.works h.sent size r.typed

theorem settled_retried {past : Past} {made : Nat} (h : Settled past live made) {r : Round}
    (dry : (live.feed r.typed).Dry) (size : Size) : Settled past (live.retried size r) 1 := by
  have next := scheduler_retried h.quiet size r
  have shown := shown_of_dry (works_feed h.works r.typed) dry []
  rw [Scheduler.within_nil] at shown
  refine ⟨?_, next ▸ h.quiet, .waiting ?_ ?_⟩
  · rw [next]
    exact works_feed h.works r.typed
  · rw [Dry, next]
    exact dry
  · rw [next]
    exact (sentCell_painted _ size).trans (if_neg shown)

/-- The rounds of a live run come to what a run comes to that has their keys from the start. -/
theorem amounts_rounds (size : Size) (rs : List Round) {past : Past} {made : Nat}
    (h : Settled past live made) :
    ∃ later limit, Amounts past live (rounds size rs live) later limit := by
  induction rs generalizing live past made with
  | nil => exact ⟨_, _, amounts_nil h.works h.sent⟩
  | cons r rest ih =>
    cases rounds_cases size live r rest with
    | completed proceeds eq =>
      obtain ⟨later, limit, amounts⟩ := ih (settled_resumed h size r)
      rw [eq]
      exact amounts_completed h.works proceeds amounts _ _
    | waiting dry eq =>
      obtain ⟨later, limit, amounts⟩ := ih (settled_retried h dry size)
      rw [eq]
      exact amounts_waiting h.quiet amounts _ _
    | ended ends fed eq =>
      have painter : (rounds size (r :: rest) live).live.painter =
          ((live.feed r.typed).painted size).1.painter := by
        rw [eq]
        rfl
      exact ⟨_, _, amounts_ended h.works h.sent ends fed (by rw [eq]) (by rw [eq]) painter⟩

/-! ## Whole live runs -/

section
variable (config : Config) (pacer : Pacer) (chance : UInt64) {program : List UInt8}

theorem start_of_loaded (bytes : program.isEmpty = false) (size : Size) :
    start config pacer chance program size =
      .ok
        ({ scheduler := { Session.begun config chance [] program with pacer }
           painter := (Painter.takeOver size).1 },
          .setRaw true :: (Painter.takeOver size).2) := by
  have untold : ({ Session.begun config chance [] program with pacer } : Scheduler).tell
      (.running config.cycles pacer) = _ :=
    Scheduler.tell_of_warn (Session.log_begun config chance [] program) rfl
  unfold start
  rw [Session.load_begun config chance [] bytes]
  exact congrArg (fun scheduler => Except.ok (({ scheduler, painter := _ } : Live), _)) untold

/-- A run before its first round, where some keys were typed ahead. -/
def opened (program : List UInt8) (size : Size) (typed : List UInt8) : Live :=
  ({ scheduler := { Session.begun config chance [] program with pacer }
     painter := (Painter.takeOver size).1 } : Live).takeLog.2.feed typed

/-- What was told of a program before its run. -/
def toldBefore (program : List UInt8) : Past where
  told := (Session.begun config chance [] program).console.log.newest

/-- The run that a session watches is the live run, if it has the same keys to come. -/
theorem opened_within (program : List UInt8) (size : Size) (typed : List UInt8)
    (later : List (Option UInt8)) :
    (opened config pacer chance program size typed).scheduler.within
        (toldBefore config chance program) later =
      { Session.begun config chance ((KeyReader.type {} typed).codes ++ later) program with
        pacer } := by
  rw [Session.begun_within config chance ((KeyReader.type {} typed).codes ++ later), opened,
    scheduler_feed, Scheduler.within_within]
  simp only [Scheduler.within, Console.within, toldBefore, takeLog, withConsole, Log.behind,
    Log.emptied, List.append_nil, List.nil_append]

theorem run_opened (program : List UInt8) (size : Size) (typed : List UInt8)
    (later : List (Option UInt8)) (limit : Nat) :
    let run := (Session.begun config chance ((KeyReader.type {} typed).codes ++ later) program).run
      limit
    let run' := runFrames limit
      ((opened config pacer chance program size typed).scheduler.within
        (toldBefore config chance program) later)
    run.1 = run'.1 ∧ run.2.console.display.shown = run'.2.console.display.shown ∧
      run.2.console.log = (Session.begun config chance [] program).console.log := by
  intro run run'
  let codes := (KeyReader.type {} typed).codes ++ later
  obtain ⟨result, shown, log⟩ := Scheduler.run_of_works limit
    (Session.works_begun config chance codes program) (Session.log_begun config chance codes program)
  have paced : run' = _ := (congrArg (runFrames limit)
    (opened_within config pacer chance program size typed later)).trans
      (Scheduler.runFrames_pacer limit _ pacer)
  rw [paced]
  refine ⟨result, shown, log.trans ?_⟩
  rw [Session.begun_within config chance codes]
  simp only [Scheduler.within, Console.within, Log.behind, List.append_nil]

theorem settled_opened (program : List UInt8) (size : Size) (typed : List UInt8) :
    Settled (toldBefore config chance program)
      (opened config pacer chance program size typed) 0 := by
  have warn := Session.log_begun config chance [] program
  have shown : (Session.begun config chance [] program).console.display.shown = [] := by
    rw [(Session.devices_begun config chance [] program).1]
  refine ⟨?_, ?_, .completed ?_⟩
  · rw [opened_within]
    exact Session.works_begun config chance _ program
  · show (Session.begun config chance [] program).console.log.emptied = {}
    rw [Log.emptied, warn]
  · show _ = pictureCell ((Session.begun config chance [] program).console.display.shown ++ _).head?
    rw [shown]
    rfl

/-- A live run, started on a terminal with these operations and entries, and a session with these
codes are one and the same. -/
structure Course.IsSession (t : Terminal) (taking : List Op) (told : List Log.Entry)
    (course : Course) (codes : List (Option UInt8)) (s : Session) : Prop where
  result : ∀ result, course.result = some result → s.result = some result
  goesOn : s.goesOn codes = course.result.isNone
  log : told ++ course.log = s.log.entries
  ops : ∃ painting,
    taking ++ course.ops = painting ++ (if course.result.isSome then s.closing else []) ∧
    ∀ x y, (x, y) ∈ boxPlaces → x < t.columns ∧ y < t.rows →
      (t.applyAll painting).shown.get x y = (t.applyAll s.painting).shown.get x y

theorem isSession_of_amounts (bytes : program.isEmpty = false) (t : Terminal) (typed : List UInt8)
    (rs : List Round) {later : List (Option UInt8)} {limit : Nat} :
    let size := (t.columns, t.rows)
    let live := opened config pacer chance program size typed
    let codes := (KeyReader.type {} typed).codes ++ later
    Amounts (toldBefore config chance program) live (rounds size rs live) later limit →
    (rounds size rs live).IsSession t (.setRaw true :: (Painter.takeOver size).2)
      (Session.begun config chance [] program).console.log.entries codes
      (.play config chance program codes size limit) := by
  intro size live codes amounts
  obtain ⟨result, shown, log⟩ := run_opened config pacer chance program size typed later limit
  have ended : (Session.play config chance program codes size limit).result = _ :=
    (Session.result_play config chance codes bytes size limit).trans result
  have same (outcome : Except Fault Unit) (is : (rounds size rs live).result = some outcome) :
      (Session.play config chance program codes size limit).result = some outcome :=
    ended.trans (amounts.result outcome is)
  have quiet := (settled_opened config pacer chance program size typed).quiet
  have entries : live.scheduler.console.keys.entries = (KeyReader.type {} typed).codes := by
    show (Session.begun config chance [] program).console.keys.entries ++ _ = _
    rw [Session.keys_begun]
    rfl
  have held : live.painter.released = false := rfl
  obtain ⟨painting, paints, ops⟩ := ops_rounds size rs held
  refine ⟨same, ?_, ?_, .setRaw true :: (Painter.takeOver size).2 ++ painting, ?_, ?_⟩
  · rw [← amounts.goesOn, entries, Session.goesOn, ended]
    rfl
  · rw [Session.log_play config chance codes bytes, log, log_rounds size rs quiet, List.append_nil]
  · have closing : (if (rounds size rs live).result.isSome then
          (Session.play config chance program codes size limit).closing else []) =
        if (rounds size rs live).result.isSome then giveBack ++ [.setRaw false] else [] := by
      cases is : (rounds size rs live).result with
      | none => rfl
      | some outcome =>
        rw [Session.closing_play config chance codes bytes, same outcome is]
        rfl
    rw [closing, ops]
    exact (List.append_assoc _ _ _).symm
  · intro x y inBox visible
    have taken := Painter.shows_takeOver (t.apply (.setRaw true)) x y
    have painted := paints.shows visible inBox taken
    have session := Session.shows_play config chance codes bytes t limit visible inBox
    rw [← applyAll_append, amounts.sent, ← shown] at painted
    exact painted.shown_eq.trans session.shown_eq.symm

end

end Live

namespace Program

open Terminal

/-- **A live run is a session.** Let the program's file be loaded and a live run be started, and
let any keys be typed ahead and between the frames. Whatever rounds are made, there is a session
of the program with the same codes in the same order, watched for some number of frames, that is
the live run: it has ended as the rounds have, or goes on as they do, it has the same log, what
is done to the terminal ends in the same way, and until then every cell of the box shows the same.
If nothing is typed once the run has begun, the codes are those that were typed ahead. -/
theorem live_run_is_session (host : Host) (directory : Directory) (options : Options)
    (pacer : Pacer) (rounds : List Live.Round) {program : List UInt8}
    (loaded : load directory options.rom = .ok program) :
    let size := (host.terminal.columns, host.terminal.rows)
    ∃ live taking, Live.start options.config pacer host.chance program size = .ok (live, taking) ∧
      let course := Live.rounds size rounds (live.takeLog.2.feed host.typed)
      ∃ later limit,
        later.reduceOption = course.codes.reduceOption ∧ (course.codes = [] → later = []) ∧
        let codes := (KeyReader.type {} host.typed).codes ++ later
        course.IsSession host.terminal taking live.takeLog.1.entries codes
          (sessionWith host directory options codes limit) := by
  intro size
  have bytes := bytes_of_load loaded
  refine ⟨_, _, Live.start_of_loaded options.config pacer host.chance bytes size, ?_⟩
  intro course
  have settled :=
    Live.settled_opened options.config pacer host.chance program size host.typed
  obtain ⟨later, limit, amounts⟩ := Live.amounts_rounds size rounds settled
  refine ⟨later, limit, amounts.codes, amounts.ahead, ?_⟩
  intro codes
  rw [sessionWith, loaded]
  exact Live.isSession_of_amounts options.config pacer host.chance bytes host.terminal host.typed
    rounds amounts

/-- At every moment of a live run the alternate screen is shown in raw mode only, and the terminal
is at rest once the run has ended. -/
theorem live_run_hands_back (host : Host) (directory : Directory) (options : Options)
    (pacer : Pacer) (rounds : List Live.Round) {program : List UInt8}
    (loaded : load directory options.rom = .ok program) (start : host.terminal.AtRest) :
    let size := (host.terminal.columns, host.terminal.rows)
    ∃ live taking, Live.start options.config pacer host.chance program size = .ok (live, taking) ∧
      let course := Live.rounds size rounds (live.takeLog.2.feed host.typed)
      host.terminal.StaysGuarded (taking ++ course.ops) ∧
        (course.result.isSome → (host.terminal.applyAll (taking ++ course.ops)).AtRest) := by
  intro size
  have bytes := bytes_of_load loaded
  refine ⟨_, _, Live.start_of_loaded options.config pacer host.chance bytes size, ?_⟩
  intro course
  have held : (Live.opened options.config pacer host.chance program size
      host.typed).painter.released = false := rfl
  obtain ⟨painting, paints, ops⟩ := Live.ops_rounds size rounds held
  have ops : course.ops = _ := ops
  have inOne : .setRaw true :: (Painter.takeOver size).2 ++ course.ops =
      .setRaw true :: ((Painter.takeOver size).2 ++ painting) ++
        (if course.result.isSome then giveBack ++ [.setRaw false] else []) := by
    rw [ops]
    exact (List.append_assoc (.setRaw true :: _) painting _).symm
  have keeps : ∀ op ∈ (Painter.takeOver size).2 ++ painting, op.keeps = true :=
    List.forall_mem_append.mpr ⟨Painter.keeps_takeOver size, paints.keeps⟩
  rw [inOne]
  refine ⟨staysGuarded_held start keeps _, fun ended => ?_⟩
  rw [if_pos ended, applyAll_append]
  exact atRest_giveBack _

/-- A program whose session has ended exits with the terminal as the session leaves it, also if a
signal has arrived. -/
theorem runWith_of_ended {host : Host} {options : Options} {limit : Nat} {place : Option Place}
    {directory : Directory} {result : Except Fault Unit}
    (opened : openLog host.directory options = .ok (place, directory))
    (ended : (session host directory options limit).result = some result)
    (still : (session host directory options limit).goesOn (KeyReader.type {} host.typed).codes =
      false) :
    ∃ exit, runWith host options limit = some exit ∧
      exit.status = (if result.isOk then 0 else 1) ∧
      exit.terminal = host.terminal.applyAll (session host directory options limit).ops := by
  unfold runWith
  rw [opened]
  simp only [still, ended]
  -- a signal only counts while the session goes on
  cases host.signal with
  | none | some _ =>
    cases result with
    | ok => exact ⟨_, rfl, rfl, rfl⟩
    | error fault => exact ⟨_, rfl, rfl, rfl⟩

/-- Where all keys were typed ahead, a live run is the session of the program, and if it ends the
program exits as it does. -/
theorem live_run_of_typed_ahead (host : Host) (options : Options) (pacer : Pacer)
    (rounds : List Live.Round) {place : Option Place} {directory : Directory}
    {program : List UInt8} (opened : openLog host.directory options = .ok (place, directory))
    (loaded : load directory options.rom = .ok program) (untyped : ∀ r ∈ rounds, r.typed = []) :
    let size := (host.terminal.columns, host.terminal.rows)
    ∃ live taking, Live.start options.config pacer host.chance program size = .ok (live, taking) ∧
      let course := Live.rounds size rounds (live.takeLog.2.feed host.typed)
      ∃ limit,
        let s := session host directory options limit
        course.IsSession host.terminal taking live.takeLog.1.entries
          (KeyReader.type {} host.typed).codes s ∧
        ∀ result, course.result = some result → ∃ exit, runWith host options limit = some exit ∧
          exit.status = (if result.isOk then 0 else 1) ∧
          exit.terminal = host.terminal.applyAll s.ops := by
  intro size
  obtain ⟨live, taking, started, later, limit, -, ahead, same⟩ :=
    live_run_is_session host directory options pacer rounds loaded
  refine ⟨live, taking, started, ?_⟩
  intro course
  have codes : course.codes = [] := Live.codes_rounds size rounds
    (KeyReader.drain_drain (live.takeLog.2.reader.type host.typed)) untyped
  rw [ahead codes, List.append_nil] at same
  refine ⟨limit, same, fun result ended => ?_⟩
  have still : course.result.isNone = false := by rw [ended]; rfl
  exact runWith_of_ended opened (same.result result ended) (same.goesOn.trans still)

end Program

end Chip8
