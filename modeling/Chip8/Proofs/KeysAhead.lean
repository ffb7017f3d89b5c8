import Mathlib.Data.List.ReduceOption
import Chip8.Proofs.ExitKey
import Chip8.Proofs.WorkingDevices

/-!
# Keys that are still to come

A frame takes its keys from the front. As long as it does not ask for more than there are, it
does the same whatever keys come behind, and it does the same whatever was shown, told and
called before it. A source that runs dry is told apart in two ways: a poll finds nothing, as if
an entry without a code were next, and a wait gives the exit key though nobody typed it.

  * `Console.within` — a console with a past behind it and keys to come.
  * `await_followed`, `waitKey_within`, `batch_within` — a wait, and all that may wait, under the
    condition that an exit is one that was typed (`Typed`).
  * `frame_within` — a frame, for which a dry poll may take one empty entry; `frame_followed` is
    what it comes to for a frame that is completed. `frame_within_nil` has nothing to come and so
    needs no condition.
  * `exitKey_mem_frame_iff` — a frame that is completed leaves the exit key where it is.
-/

namespace Chip8

/-- Where more is to come, an exit is one that was typed. -/
def Typed (more : List (Option UInt8)) (exits : Prop) (entries : List (Option UInt8)) : Prop :=
  more ≠ [] → exits → some exitKey ∈ entries

/-- Entries without codes, left in front of what comes later. -/
structure Gap (later gap : List (Option UInt8)) : Prop where
  noCodes : gap.reduceOption = []
  noExit : some exitKey ∉ gap
  /-- Where nothing comes later nothing is left. -/
  ahead : later = [] → gap = []

theorem Gap.nil (later : List (Option UInt8)) : Gap later [] := ⟨rfl, List.not_mem_nil, fun _ => rfl⟩

theorem Gap.one (entry : Option UInt8) (later : List (Option UInt8)) : Gap (entry :: later) [none] where
  noCodes := rfl
  noExit mem := by cases List.mem_singleton.mp mem
  ahead isNone := by cases isNone

section
variable {more entries entries' : List (Option UInt8)} {exits exits' : Prop}

theorem typed_nil : Typed [] exits entries := fun more => absurd rfl more

theorem Typed.imp (h : Typed more exits entries) (told : exits' → exits) :
    Typed more exits' entries :=
  fun some is => h some (told is)

theorem Typed.later (h : Typed more exits entries)
    (kept : some exitKey ∈ entries → some exitKey ∈ entries') : Typed more exits entries' :=
  fun some is => kept (h some is)

end

namespace KeySource

variable {more : List (Option UInt8)} {s s' : KeySource} {code : UInt8}

/-- The source with more to come behind what it has. -/
def followed (more : List (Option UInt8)) (s : KeySource) : KeySource :=
  { s with entries := s.entries ++ more }

/-! ## Waits -/

theorem firstCode_append {entries : List (Option UInt8)}
    (h : Typed more ((firstCode entries).1 = exitKey) entries) :
    firstCode (entries ++ more) = ((firstCode entries).1, (firstCode entries).2 ++ more) := by
  fun_induction firstCode entries with
  | case1 =>
    cases more with
    | nil => rfl
    | cons entry more => exact absurd (h (List.cons_ne_nil _ _) rfl) List.not_mem_nil
  | case2 rest ih =>
    refine ih (h.later fun mem => ?_)
    rcases List.mem_cons.mp mem with isNone | mem
    · cases isNone
    · exact mem
  | case3 code rest => rfl

theorem read_followed {result : Except String UInt8} (read : s.read = (result, s'))
    (h : Typed more (result = .ok exitKey) s.entries) :
    (s.followed more).read = (result, s'.followed more) := by
  unfold KeySource.read at read ⊢
  have same : (s.followed more).nextFault = s.nextFault := rfl
  rw [same]
  cases fault : s.nextFault with
  | some reason =>
    rw [fault] at read
    obtain ⟨rfl, rfl⟩ := Prod.mk.inj read
    rfl
  | none =>
    rw [fault] at read
    obtain ⟨rfl, rfl⟩ := Prod.mk.inj read
    have first : firstCode (s.entries ++ more) = _ :=
      firstCode_append (h.imp fun isExit => congrArg Except.ok isExit)
    show (Except.ok (firstCode (s.entries ++ more)).1, _) = _
    rw [first]
    simp only [followed, called, first]

/-- Another code leaves the exit key where it is. -/
theorem exitKey_mem_of_read (read : s.read = (.ok code, s')) (other : code ≠ exitKey)
    (mem : some exitKey ∈ s.entries) : some exitKey ∈ s'.entries := by
  cases takes_of_read (exitAfter_of_mem mem) read with
  | exit isExit => exact absurd isExit other
  | ahead _ _ _ ahead => exact ahead.mem

theorem await_followed (s : KeySource) (h : Typed more (s.await.result = .ok none) s.entries) :
    (s.followed more).await = { s.await with source := s.await.source.followed more } := by
  induction s using await_induction with
  | error read => exact await_of_error (read_followed read (h.imp fun isExit => by cases isExit))
  | exit read => exact await_of_exitKey (read_followed read (h.imp fun _ => rfl))
  | key read other mapped =>
    exact await_of_key (read_followed read (h.imp fun isExit => absurd (Except.ok.inj isExit) other))
      other mapped
  | @unmapped s s' code read other unmapped ih =>
    have first : (s.followed more).read = (.ok code, s'.followed more) :=
      read_followed read fun _ isExit => absurd (Except.ok.inj isExit) other
    rw [await_of_unmapped first other unmapped,
      ih (h.later fun mem => exitKey_mem_of_read read other mem)]

end KeySource

namespace Log

/-- The log with entries that were told before all others, newest first. -/
def behind (told : List Entry) (log : Log) : Log := { log with newest := log.newest ++ told }

theorem add_behind (told : List Entry) (log : Log) (entry : Entry) :
    (log.behind told).add entry = (log.add entry).behind told := by
  unfold add
  by_cases kept : log.level.rank ≤ entry.level.rank
  · rw [if_pos kept, if_pos (show (log.behind told).level.rank ≤ _ from kept)]
    rfl
  · rw [if_neg kept, if_neg (show ¬ (log.behind told).level.rank ≤ _ from kept)]

theorem addAll_behind (told : List Entry) (log : Log) (entries : List Entry) :
    (log.behind told).addAll entries = (log.addAll entries).behind told := by
  induction entries generalizing log with
  | nil => rfl
  | cons entry rest ih =>
    show ((log.behind told).add entry).addAll rest = _
    rw [add_behind]
    exact ih (log.add entry)

end Log

/-- What a console has behind it: pictures, entries and calls, newest first. -/
structure Past where
  shown : List Picture := []
  told : List Log.Entry := []
  calls : List DeviceCall := []

/-- The past of a console that goes on with another one behind it. -/
def Past.later (past : Past) (c : Console) : Past where
  shown := c.display.shown ++ past.shown
  told := c.log.newest ++ past.told
  calls := c.calls ++ past.calls

/-- The display that has shown other pictures before. -/
def Display.after (shown : List Picture) (d : Display) : Display :=
  { d with shown := d.shown ++ shown }

theorem Display.draw_after (shown : List Picture) (d : Display) (picture : Picture) :
    (d.after shown).draw picture = ((d.draw picture).1, (d.draw picture).2.after shown) := by
  simp only [draw, after]
  cases d.faultAt (d.draws + 1) with
  | some reason => rfl
  | none => rfl

theorem Display.release_after (shown : List Picture) (d : Display) :
    (d.after shown).release = (d.release.1, d.release.2.after shown) := by
  obtain ⟨earlier, draws, releases, owns, faultAt, fault, releaseFaultAt⟩ := d
  simp only [release, after]
  cases owns with
  | false => rfl
  | true =>
    cases releaseFaultAt (releases + 1) with
    | some reason => rfl
    | none => rfl

namespace Console

variable {past : Past} {more : List (Option UInt8)} {c : Console}

/-- The console with a past behind it and more keys to come. -/
def within (past : Past) (more : List (Option UInt8)) (c : Console) : Console :=
  { c with
    display := c.display.after past.shown
    keys := c.keys.followed more
    log := c.log.behind past.told
    calls := c.calls ++ past.calls }

/-- The same around the outcome of an operation. -/
def inside {α : Type} (past : Past) (more : List (Option UInt8)) (outcome : α × Console) :
    α × Console :=
  (outcome.1, outcome.2.within past more)

@[simp] theorem machine_within : (c.within past more).machine = c.machine := rfl

@[simp] theorem display_within :
    (c.within past more).display = c.display.after past.shown := rfl

@[simp] theorem keys_within : (c.within past more).keys = c.keys.followed more := rfl

/-! ## Cycles -/

/-- What a wait leaves behind beside the machine, once the picture is up. -/
theorem left_of_drawn (x : Register) (h : (c.display.draw c.machine.frame.picture).1 = .ok ()) :
    (c.waitKey x).2 =
      { machine := (c.waitKey x).2.machine
        display := (c.display.draw c.machine.frame.picture).2
        keys := c.keys.await.source
        log := c.log.addAll (c.keys.await.unmapped.map fun code => .unmappedCode code true)
        calls :=
          List.replicate (c.keys.await.source.calls - c.keys.calls) .read ++
            .draw :: c.calls } := by
  unfold waitKey present
  simp only
  rcases drawn : c.display.draw c.machine.frame.picture with ⟨reason | _, display⟩
  · rw [drawn] at h
    cases h
  · have shown : (Except.ok () : Except String Unit).mapError Fault.device = .ok () := rfl
    simp only [shown]
    rcases c.keys.await.result with reason | _ | key
    · rfl
    · rfl
    · rfl

theorem waitKey_within (past : Past) (x : Register)
    (h : Typed more ((c.waitKey x).1 = .ok .exit) c.keys.entries) :
    (c.within past more).waitKey x = inside past more (c.waitKey x) := by
  cases drawn : (c.display.draw c.machine.frame.picture).1 with
  | error reason =>
    have drawn' : ((c.within past more).display.draw c.machine.frame.picture).1 =
        .error reason := by rw [display_within, Display.draw_after, drawn]
    rw [waitKey_of_undrawn x drawn, waitKey_of_undrawn (c := c.within past more) x drawn']
    simp only [machine_within, display_within, Display.draw_after]
    rfl
  | ok =>
    have drawn' : ((c.within past more).display.draw c.machine.frame.picture).1 = .ok () := by
      rw [display_within, Display.draw_after, drawn]
    have answered : (c.within past more).keys.await =
        { c.keys.await with source := c.keys.await.source.followed more } := by
      refine c.keys.await_followed (h.imp fun exits => ?_)
      rw [result_waitKey_of_drawn x drawn, exits]
    have result : ((c.within past more).waitKey x).1 = (c.waitKey x).1 := by
      rw [result_waitKey_of_drawn x drawn, result_waitKey_of_drawn (c := c.within past more) x drawn',
        answered]
    have machine : ((c.within past more).waitKey x).2.machine = (c.waitKey x).2.machine := by
      rw [machine_waitKey_of_drawn x drawn,
        machine_waitKey_of_drawn (c := c.within past more) x drawn', answered, machine_within]
    have told (entries : List Log.Entry) :
        (c.within past more).log.addAll entries = (c.log.addAll entries).behind past.told :=
      Log.addAll_behind past.told c.log entries
    refine Prod.ext result ?_
    rw [left_of_drawn (c := c.within past more) x drawn', machine, answered, told, machine_within,
      display_within, Display.draw_after]
    show _ = (c.waitKey x).2.within past more
    rw [left_of_drawn x drawn]
    show Console.mk _ _ _ _ _ = Console.mk _ _ _ _ _
    congr 1
    exact (List.append_assoc _ (DeviceCall.draw :: c.calls) past.calls).symm

theorem execute_within (dialect : Dialect) (past : Past) (f : Fetched)
    (h : Typed more ((c.execute dialect f).1 = .ok .exit) c.keys.entries) :
    (c.within past more).execute dialect f = inside past more (c.execute dialect f) := by
  have told : (c.within past more).told dialect f = (c.told dialect f).behind past.told :=
    Log.addAll_behind past.told c.log _
  by_cases waits : ∃ x, f.instruction = .waitKey x
  · obtain ⟨x, waits⟩ := waits
    obtain ⟨address, word, i⟩ := f
    obtain rfl : i = .waitKey x := waits
    rw [execute_waitKey] at h
    rw [execute_waitKey, execute_waitKey, told]
    exact waitKey_within past x h
  · have noWait : ∀ x, f.instruction ≠ .waitKey x := fun x h => waits ⟨x, h⟩
    rw [execute_of_ne_waitKey noWait, execute_of_ne_waitKey noWait, told, machine_within]
    cases c.machine.execute dialect f with
    | error fault => rfl
    | ok machine => rfl

theorem cycle_within (dialect : Dialect) (past : Past)
    (h : Typed more ((c.cycle dialect).1 = .ok .exit) c.keys.entries) :
    (c.within past more).cycle dialect = inside past more (c.cycle dialect) := by
  unfold cycle at h ⊢
  rw [machine_within]
  rcases fetched : c.machine.fetch with ⟨fault | f, machine⟩
  · rfl
  · rw [fetched] at h
    exact execute_within dialect past f h

/-- A cycle that lets the run go on leaves the exit key where it is. -/
theorem exitKey_mem_of_cycle {dialect : Dialect} (proceeds : (c.cycle dialect).1 = .ok .proceed)
    (mem : some exitKey ∈ c.keys.entries) : some exitKey ∈ (c.cycle dialect).2.keys.entries := by
  cases takes_cycle dialect (KeySource.exitAfter_of_mem mem) with
  | exit exits => rw [proceeds] at exits; cases exits
  | ahead _ _ _ ahead => exact ahead.mem

theorem faultAt_cycle (dialect : Dialect) (c : Console) :
    (c.cycle dialect).2.keys.faultAt = c.keys.faultAt := by
  cases cycle_cases dialect c with
  | outside _ _ console | undecodable _ _ _ console | overflow _ _ _ _ _ _ console
  | executed _ _ _ _ _ _ _ _ console => rw [console]
  | waited _ _ _ _ waits =>
    cases waits with
    | undrawn _ _ _ keys => rw [keys]
    | unread _ _ _ _ keys | exit _ _ _ keys | key _ _ _ _ keys =>
      rw [keys]
      exact KeySource.faultAt_await c.keys

/-! ## The other steps of a frame -/

theorem render_within (past : Past) (more : List (Option UInt8)) (c : Console) :
    (c.within past more).render = inside past more c.render := by
  cases pending : c.machine.frame.pending with
  | true =>
    rw [render_of_pending pending, render_of_pending (c := c.within past more) pending]
    simp only [machine_within, display_within, Display.draw_after]
    rfl
  | false =>
    rw [render_of_settled pending, render_of_settled (c := c.within past more) pending]
    rfl

end Console

theorem KeySource.poll_followed {more : List (Option UInt8)} {s : KeySource}
    (h : s.entries = [] → more = []) :
    (s.followed more).poll = (s.poll.1, s.poll.2.followed more) := by
  unfold KeySource.poll
  have same : (s.followed more).nextFault = s.nextFault := rfl
  rw [same]
  cases s.nextFault with
  | some reason => rfl
  | none =>
    obtain ⟨entries, calls, faultAt⟩ := s
    cases entries with
    | nil =>
      obtain rfl := h rfl
      rfl
    | cons entry rest => rfl

/-- An empty entry is all that a dry poll takes. -/
theorem KeySource.poll_followed_of_dry (more : List (Option UInt8)) {s : KeySource}
    (works : s.nextFault = none) (dry : s.entries = []) :
    (s.followed (none :: more)).poll = (s.poll.1, s.poll.2.followed more) := by
  unfold KeySource.poll
  have same : (s.followed (none :: more)).nextFault = s.nextFault := rfl
  rw [same, works]
  obtain ⟨entries, calls, faultAt⟩ := s
  obtain rfl : entries = [] := dry
  rfl

namespace Console

variable {past : Past} {more more' : List (Option UInt8)} {c : Console}

theorem poll_within_of (past : Past)
    (polled : (c.keys.followed more).poll = (c.keys.poll.1, c.keys.poll.2.followed more')) :
    (c.within past more).poll = inside past more' c.poll := by
  simp only [poll, machine_within, keys_within, polled]
  rcases c.keys.poll with ⟨reason | _ | code, keys⟩
  · rfl
  · rfl
  · by_cases isExit : code = exitKey
    · simp only [if_pos isExit]
      rfl
    · simp only [if_neg isExit]
      cases Keypad.keyOf? code with
      | some key => rfl
      | none =>
        have told : (c.within past more).log.add (.unmappedCode code) = _ :=
          Log.add_behind past.told c.log _
        simp only [told]
        rfl

end Console

namespace Scheduler

open Console (inside)

variable {past : Past} {more : List (Option UInt8)} {c : Console}

/-! ## Frames -/

theorem batch_within (dialect : Dialect) (count : Nat) (past : Past)
    (h : Typed more ((batch dialect count c).1 = .ok .exit) c.keys.entries) :
    batch dialect count (c.within past more) = inside past more (batch dialect count c) := by
  induction count generalizing c with
  | zero => rfl
  | succ count ih =>
    by_cases proceeds : (c.cycle dialect).1 = .ok .proceed
    · have cycled : (c.within past more).cycle dialect = inside past more (c.cycle dialect) :=
        c.cycle_within dialect past fun _ exits => by rw [proceeds] at exits; cases exits
      rw [batch_of_proceed count proceeds] at h
      rw [batch_of_proceed count proceeds,
        batch_of_proceed count ((congrArg Prod.fst cycled).trans proceeds), cycled]
      exact ih (h.later (Console.exitKey_mem_of_cycle proceeds))
    · rw [batch_of_end count proceeds] at h
      have cycled := c.cycle_within dialect past h
      rw [batch_of_end count proceeds, batch_of_end count (by rw [cycled]; exact proceeds), cycled]

theorem faultAt_batch (dialect : Dialect) (count : Nat) (c : Console) :
    (batch dialect count c).2.keys.faultAt = c.keys.faultAt := by
  induction count generalizing c with
  | zero => rfl
  | succ count ih =>
    by_cases proceeds : (c.cycle dialect).1 = .ok .proceed
    · rw [batch_of_proceed count proceeds, ih, Console.faultAt_cycle]
    · rw [batch_of_end count proceeds, Console.faultAt_cycle]

theorem afterBatch_within_of (past : Past) {more' : List (Option UInt8)}
    (fails : c.render.1 ≠ .ok () → more = more')
    (polled : c.render.1 = .ok () →
      (c.keys.followed more).poll = (c.keys.poll.1, c.keys.poll.2.followed more')) :
    afterBatch (c.within past more) = inside past more' (afterBatch c) := by
  have rendered := c.render_within past more
  have shows : (c.within past more).render.1 = c.render.1 := by rw [rendered]; rfl
  cases outcome : c.render.1 with
  | error fault =>
    obtain rfl := fails (by rw [outcome]; intro is; cases is)
    rw [afterBatch_of_error outcome, afterBatch_of_error (shows.trans outcome), rendered]
    rfl
  | ok =>
    have keys : c.render.2.tick.keys = c.keys := c.keys_render
    have polls := polled outcome
    rw [← keys] at polls
    rw [afterBatch_of_ok outcome, afterBatch_of_ok (shows.trans outcome), rendered]
    exact Console.poll_within_of past polls

/-- What follows a batch, with keys to come behind the entry that a dry poll takes. -/
theorem afterBatch_within (works : ∀ k, c.keys.faultAt k = none) :
    ∃ gap, (gap = [] ∨ gap = [none]) ∧ ∀ past more,
      afterBatch (c.within past (gap ++ more)) = inside past more (afterBatch c) := by
  by_cases dry : c.render.1 = .ok () ∧ c.keys.entries = []
  · refine ⟨[none], .inr rfl, fun past more => ?_⟩
    refine afterBatch_within_of past (fun fails => absurd dry.1 fails) fun _ => ?_
    exact KeySource.poll_followed_of_dry more (works _) dry.2
  · refine ⟨[], .inl rfl, fun past more => ?_⟩
    refine afterBatch_within_of past (fun _ => rfl) fun shows => ?_
    exact KeySource.poll_followed fun empty => absurd ⟨shows, empty⟩ dry

/-- The scheduler, where its console has a past behind it and more keys to come. -/
def within (past : Past) (more : List (Option UInt8)) (s : Scheduler) : Scheduler :=
  { s with console := s.console.within past more }

theorem frame_within_of {s : Scheduler} {past : Past} {more' : List (Option UInt8)}
    (batched : batch s.dialect s.cycles (s.console.within past more) =
      inside past more (batch s.dialect s.cycles s.console))
    (ends : (batch s.dialect s.cycles s.console).1 ≠ .ok .proceed → more = more')
    (followed : (batch s.dialect s.cycles s.console).1 = .ok .proceed →
      afterBatch ((batch s.dialect s.cycles s.console).2.within past more) =
        inside past more' (afterBatch (batch s.dialect s.cycles s.console).2)) :
    (s.within past more).frame = (s.frame.1, s.frame.2.within past more') := by
  simp only [frame, within, batched]
  rcases outcome : batch s.dialect s.cycles s.console with ⟨fault | flow, c⟩
  · obtain rfl := ends (by rw [outcome]; intro is; cases is)
    rfl
  · cases flow with
    | exit =>
      obtain rfl := ends (by rw [outcome]; intro is; cases is)
      rfl
    | proceed =>
      rw [outcome] at followed
      simp only [inside, followed rfl]
      rcases afterBatch c with ⟨fault | flow, c'⟩
      · rfl
      · cases flow with
        | exit => rfl
        | proceed => rfl

/-- A frame whose exit was typed, if it exits, does the same whatever keys come behind, but for the
entry that a dry poll takes. -/
theorem frame_within {s : Scheduler} (works : ∀ k, s.console.keys.faultAt k = none)
    (typed : s.frame.1 = .ok .exit → some exitKey ∈ s.console.keys.entries) :
    ∃ gap, (gap = [] ∨ gap = [none]) ∧ ∀ past more,
      (s.within past (gap ++ more)).frame = (s.frame.1, s.frame.2.within past more) := by
  by_cases proceeds : (batch s.dialect s.cycles s.console).1 = .ok .proceed
  · have works' (k : Nat) : (batch s.dialect s.cycles s.console).2.keys.faultAt k = none := by
      rw [faultAt_batch]
      exact works k
    obtain ⟨gap, one, followed⟩ := afterBatch_within works'
    refine ⟨gap, one, fun past more => frame_within_of ?_ (absurd proceeds) fun _ => followed _ _⟩
    exact batch_within _ _ past fun _ exits => by rw [proceeds] at exits; cases exits
  · refine ⟨[], .inl rfl, fun past more => frame_within_of ?_ (fun _ => rfl) (absurd · proceeds)⟩
    refine batch_within _ _ past fun _ exits => typed ?_
    cases frame_cases s with
    | stopped _ result => rw [result, exits]
    | ended goesOn | completed goesOn => exact absurd goesOn proceeds

/-- Where nothing more is to come, a frame does the same, also if it runs dry. -/
theorem frame_within_nil (s : Scheduler) (past : Past) :
    (s.within past []).frame = (s.frame.1, s.frame.2.within past []) := by
  refine frame_within_of (batch_within _ _ past typed_nil) (fun _ => rfl) fun _ => ?_
  exact afterBatch_within_of past (fun _ => rfl) fun _ => KeySource.poll_followed fun _ => rfl

section
variable {s : Scheduler}

/-- Keys that are still to come leave a frame alone that is completed, if there is room for what
a dry poll takes. -/
theorem frame_followed (works : ∀ k, s.console.keys.faultAt k = none)
    (proceeds : s.frame.1 = .ok .proceed) (past : Past) (later : List (Option UInt8)) :
    ∃ gap, Gap later gap ∧
      (s.within past (gap ++ later)).frame = (.ok .proceed, s.frame.2.within past later) := by
  rw [← proceeds]
  cases later with
  | nil => exact ⟨[], .nil [], frame_within_nil s past⟩
  | cons entry later =>
    obtain ⟨gap, one, followed⟩ :=
      frame_within works fun exits => by cases proceeds.symm.trans exits
    refine ⟨gap, ?_, followed past _⟩
    rcases one with rfl | rfl
    · exact .nil _
    · exact .one entry later

/-- A frame that is completed has not taken the exit key. -/
theorem exitKey_mem_frame_iff (proceeds : s.frame.1 = .ok .proceed) :
    some exitKey ∈ s.frame.2.console.keys.entries ↔ some exitKey ∈ s.console.keys.entries := by
  constructor
  · intro mem
    have left : s.frame.2.console.keys.entries <:+ s.console.keys.entries := by
      rw [← after_frameSteps]
      exact Console.suffix_after _ _ _
    exact left.mem mem
  · intro mem
    cases frame_takes (KeySource.exitAfter_of_mem mem) with
    | failed _ result | exit result => cases proceeds.symm.trans result
    | completed _ _ _ _ ahead => exact ahead.mem

/-! ## What is behind and what is to come -/

theorem within_within (past : Past) (first second : List (Option UInt8)) :
    (s.within {} first).within past second = s.within past (first ++ second) := by
  simp only [within, Console.within, Display.after, KeySource.followed, Log.behind,
    List.append_nil, List.append_assoc]

theorem within_nil (s : Scheduler) : s.within {} [] = s := by
  simp only [within, Console.within, Display.after, KeySource.followed, Log.behind,
    List.append_nil]

/-- The scheduler without a memory of pictures, entries and calls. -/
def relieved (s : Scheduler) : Scheduler :=
  { s with
    console :=
      { s.console with
        display := { s.console.display with shown := [] }
        log := s.console.log.emptied
        calls := [] } }

theorem within_relieved (s : Scheduler) (past : Past) (more : List (Option UInt8)) :
    s.within past more = s.relieved.within (past.later s.console) more := rfl

end

end Scheduler

end Chip8
