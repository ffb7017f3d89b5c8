import Chip8.KeySource

/-!
# What is taken from a source of keys

Entries are taken from the front only, whatever is asked of a source and whether or not
it fails. So where the first exit key stands among the entries says how long it takes to
get to it: `ExitAfter n rest` holds of the entries in which it comes after `n` others,
with `rest` behind it.

  * `suffix_poll`, `suffix_await` — what is left is the end of what there was.
  * `calls_poll`, `calls_le_await` — each call is counted.
  * `poll_cases`, `await_cases` — a poll and a wait take the exit key, and then exactly
    `rest` is left, or leave it ahead. A poll that does not fail gets one entry closer,
    a wait any number of them.
-/

namespace Chip8.KeySource

/-! ## Waiting, one read at a time -/

section
variable {s s' : KeySource} {code : UInt8}

theorem await_of_error {reason : String} (h : s.read = (.error reason, s')) :
    s.await = ⟨.error reason, [], s'⟩ := by
  rw [await]
  split
  · next read =>
    obtain ⟨rfl, rfl⟩ : _ = reason ∧ _ = s' := by simpa [read] using h
    rfl
  · next read => rw [read] at h; cases h

theorem await_of_exitKey (h : s.read = (.ok exitKey, s')) : s.await = ⟨.ok none, [], s'⟩ := by
  rw [await]
  split
  · next read => rw [read] at h; cases h
  · next read =>
    obtain ⟨rfl, rfl⟩ : _ = exitKey ∧ _ = s' := by simpa [read] using h
    exact dif_pos rfl

theorem await_of_key {key : Key} (h : s.read = (.ok code, s')) (hc : code ≠ exitKey)
    (hk : Keypad.keyOf? code = some key) : s.await = ⟨.ok (some key), [], s'⟩ := by
  rw [await]
  split
  · next read => rw [read] at h; cases h
  · next read =>
    obtain ⟨rfl, rfl⟩ : _ = code ∧ _ = s' := by simpa [read] using h
    rw [dif_neg hc, hk]

theorem await_of_unmapped (h : s.read = (.ok code, s')) (hc : code ≠ exitKey)
    (hk : Keypad.keyOf? code = none) :
    s.await = { s'.await with unmapped := code :: s'.await.unmapped } := by
  rw [await]
  split
  · next read => rw [read] at h; cases h
  · next read =>
    obtain ⟨rfl, rfl⟩ : _ = code ∧ _ = s' := by simpa [read] using h
    rw [dif_neg hc, hk]

end

/-- A wait ends with the read that fails, or with the first code that is the exit key or
a key's; for the codes before it holds what is kept from a wait to one that begins a code
earlier. -/
theorem await_induction {motive : KeySource → Wait → Prop}
    (error : ∀ {s s' reason}, s.read = (.error reason, s') → motive s ⟨.error reason, [], s'⟩)
    (exit : ∀ {s s'}, s.read = (.ok exitKey, s') → motive s ⟨.ok none, [], s'⟩)
    (key : ∀ {s s' code key}, s.read = (.ok code, s') → code ≠ exitKey →
      Keypad.keyOf? code = some key → motive s ⟨.ok (some key), [], s'⟩)
    (unmapped : ∀ {s s' code}, s.read = (.ok code, s') → code ≠ exitKey →
      Keypad.keyOf? code = none → motive s' s'.await →
      motive s { s'.await with unmapped := code :: s'.await.unmapped })
    (s : KeySource) : motive s s.await := by
  induction size : s.entries.length using Nat.strongRecOn generalizing s with
  | ind n ih =>
    cases read : s.read with
    | mk result s' =>
      cases result with
      | error reason => rw [await_of_error read]; exact error read
      | ok code =>
        by_cases isExit : code = exitKey
        · subst isExit
          rw [await_of_exitKey read]
          exact exit read
        cases mapped : Keypad.keyOf? code with
        | some k => rw [await_of_key read isExit mapped]; exact key read isExit mapped
        | none =>
          have shorter : s'.entries.length < n := size ▸ read_length_lt read isExit
          rw [await_of_unmapped read isExit mapped]
          exact unmapped read isExit mapped (ih _ shorter s' rfl)

/-! ## Only from the front -/

theorem suffix_of_eq {α : Type} {left entries : List α} (h : left = entries) :
    left <:+ entries := by
  subst h
  exact List.suffix_refl left

theorem suffix_firstCode (entries : List (Option UInt8)) : (firstCode entries).2 <:+ entries := by
  fun_induction firstCode entries with
  | case1 => exact List.suffix_refl _
  | case2 rest ih => exact ih.trans (List.suffix_cons none rest)
  | case3 code rest => exact List.suffix_cons (some code) rest

theorem suffix_read (s : KeySource) : s.read.2.entries <:+ s.entries := by
  unfold read
  split
  · exact List.suffix_refl _
  · exact suffix_firstCode _

theorem suffix_poll (s : KeySource) : s.poll.2.entries <:+ s.entries := by
  unfold poll
  split
  · exact List.suffix_refl _
  · exact List.tail_suffix _

theorem suffix_of_read {s s' : KeySource} {result : Except String UInt8}
    (h : s.read = (result, s')) : s'.entries <:+ s.entries := by
  have suffix := suffix_read s
  rw [h] at suffix
  exact suffix

theorem suffix_await (s : KeySource) : s.await.source.entries <:+ s.entries := by
  induction s using await_induction with
  | error read | exit read | key read => exact suffix_of_read read
  | unmapped read _ _ ih => exact ih.trans (suffix_of_read read)

/-! ## How many calls -/

theorem calls_poll (s : KeySource) : s.poll.2.calls = s.calls + 1 := by
  unfold poll
  split
  · rfl
  · rfl

theorem calls_of_read {s s' : KeySource} {result : Except String UInt8}
    (h : s.read = (result, s')) : s'.calls = s.calls + 1 := by
  unfold read at h
  split at h
  · obtain ⟨-, rfl⟩ := Prod.mk.inj h
    rfl
  · obtain ⟨-, rfl⟩ := Prod.mk.inj h
    rfl

theorem calls_le_await (s : KeySource) : s.calls ≤ s.await.source.calls := by
  induction s using await_induction with
  | error read | exit read | key read => exact Nat.le.intro (calls_of_read read).symm
  | unmapped read _ _ ih => exact Nat.le_trans (Nat.le.intro (calls_of_read read).symm) ih

/-! ## The exit key ahead -/

/-- The exit key comes after `n` other entries, and `rest` comes behind it. -/
def ExitAfter (n : Nat) (rest entries : List (Option UInt8)) : Prop :=
  ∃ before, before.length = n ∧ some exitKey ∉ before ∧ entries = before ++ some exitKey :: rest

theorem exitAfter_of_mem {entries : List (Option UInt8)} (h : some exitKey ∈ entries) :
    ExitAfter (entries.idxOf (some exitKey)) (entries.drop (entries.idxOf (some exitKey) + 1))
      entries := by
  obtain ⟨before, rest, rfl, others⟩ := List.eq_append_cons_of_mem h
  have place : (before ++ some exitKey :: rest).idxOf (some exitKey) = before.length := by
    rw [List.idxOf_append, if_neg others, List.idxOf_cons_self, Nat.zero_add]
  refine ⟨before, place.symm, others, ?_⟩
  rw [place, ← List.drop_drop, List.drop_left]
  rfl

section
variable {n : Nat} {rest entries : List (Option UInt8)}

theorem not_exitAfter_nil : ¬ ExitAfter n rest [] := by
  rintro ⟨before, -, -, same⟩
  exact absurd same.symm (List.append_ne_nil_of_right_ne_nil _ (List.cons_ne_nil _ _))

/-- The front entry is the exit key, or the exit key comes one entry earlier behind it. -/
theorem exitAfter_cons {entry : Option UInt8} (h : ExitAfter n rest (entry :: entries)) :
    (entry = some exitKey ∧ n = 0 ∧ entries = rest) ∨
      (entry ≠ some exitKey ∧ ∃ m, n = m + 1 ∧ ExitAfter m rest entries) := by
  obtain ⟨before, length, others, same⟩ := h
  cases before with
  | nil =>
    obtain ⟨rfl, rfl⟩ := List.cons.inj same
    exact .inl ⟨rfl, length.symm, rfl⟩
  | cons first before =>
    obtain ⟨rfl, rfl⟩ := List.cons.inj same
    refine .inr ⟨fun isExit => others (isExit ▸ List.mem_cons_self), before.length, ?_, ?_⟩
    · rw [← length, List.length_cons]
    · exact ⟨before, rfl, fun mem => others (List.mem_cons_of_mem _ mem), rfl⟩

theorem ExitAfter.suffix (h : ExitAfter n rest entries) : rest <:+ entries := by
  obtain ⟨before, -, -, rfl⟩ := h
  exact ⟨before ++ [some exitKey], by rw [List.append_assoc]; rfl⟩

theorem ExitAfter.mem (h : ExitAfter n rest entries) : some exitKey ∈ entries := by
  obtain ⟨before, -, -, rfl⟩ := h
  exact List.mem_append_right _ List.mem_cons_self

theorem ExitAfter.length_eq (h : ExitAfter n rest entries) :
    entries.length = n + (rest.length + 1) := by
  obtain ⟨before, rfl, -, rfl⟩ := h
  rw [List.length_append, List.length_cons]

theorem ExitAfter.unique {m : Nat} (h : ExitAfter n rest entries) (h' : ExitAfter m rest entries) :
    n = m := by
  have length := h.length_eq
  have length' := h'.length_eq
  omega

theorem firstCode_cases (h : ExitAfter n rest entries) :
    ((firstCode entries).1 = exitKey ∧ (firstCode entries).2 = rest) ∨
      ((firstCode entries).1 ≠ exitKey ∧ ∃ m, m ≤ n ∧ ExitAfter m rest (firstCode entries).2) := by
  fun_induction firstCode entries generalizing n with
  | case1 => exact absurd h not_exitAfter_nil
  | case2 entries ih =>
    rcases exitAfter_cons h with ⟨isExit, -⟩ | ⟨-, m, rfl, ahead⟩
    · cases isExit
    rcases ih ahead with taken | ⟨other, m', le, ahead'⟩
    · exact .inl taken
    · exact .inr ⟨other, m', Nat.le_succ_of_le le, ahead'⟩
  | case3 code entries =>
    rcases exitAfter_cons h with ⟨isExit, -, same⟩ | ⟨other, m, rfl, ahead⟩
    · exact .inl ⟨Option.some.inj isExit, same⟩
    · exact .inr ⟨fun isExit => other (congrArg some isExit), m, Nat.le_succ m, ahead⟩

end

/-! ## Getting to it -/

/-- The exit key was taken, which is what `exits` tells, or it is still ahead behind at
most `n` entries. -/
inductive Takes (n : Nat) (rest : List (Option UInt8)) (exits : Prop) (s : KeySource) : Prop where
  | exit (told : exits) (taken : s.entries = rest)
  | ahead (untold : ¬ exits) (m : Nat) (le : m ≤ n) (ahead : ExitAfter m rest s.entries)

section
variable {n : Nat} {rest : List (Option UInt8)} {s s' : KeySource}

theorem Takes.of_le {m : Nat} {exits : Prop} (h : Takes m rest exits s) (le : m ≤ n) :
    Takes n rest exits s := by
  cases h with
  | exit told taken => exact .exit told taken
  | ahead untold m' le' ahead => exact .ahead untold m' (Nat.le_trans le' le) ahead

theorem Takes.congr {exits exits' : Prop} (h : Takes n rest exits s) (same : exits ↔ exits') :
    Takes n rest exits' s := by
  rw [← same]
  exact h

theorem entries_of_failed_read {reason : String} (h : s.read = (.error reason, s')) :
    s'.entries = s.entries := by
  unfold read at h
  split at h
  · obtain ⟨-, rfl⟩ := Prod.mk.inj h
    rfl
  · cases h

theorem takes_of_read {code : UInt8} (h : ExitAfter n rest s.entries)
    (read : s.read = (.ok code, s')) : Takes n rest (code = exitKey) s' := by
  unfold KeySource.read at read
  split at read
  · cases read
  · obtain ⟨result, rfl⟩ := Prod.mk.inj read
    obtain rfl := Except.ok.inj result
    rcases firstCode_cases h with ⟨isExit, taken⟩ | ⟨other, m, le, ahead⟩
    · exact .exit isExit taken
    · exact .ahead other m le ahead

theorem await_cases (h : ExitAfter n rest s.entries) :
    Takes n rest (s.await.result = .ok none) s.await.source := by
  induction s using await_induction generalizing n with
  | error read =>
    rw [← entries_of_failed_read read] at h
    exact .ahead (fun isExit => by cases isExit) n (Nat.le_refl n) h
  | exit read =>
    cases takes_of_read h read with
    | exit _ taken => exact .exit rfl taken
    | ahead other => exact absurd rfl other
  | key read other =>
    cases takes_of_read h read with
    | exit isExit => exact absurd isExit other
    | ahead _ m le ahead => exact .ahead (fun isExit => by cases isExit) m le ahead
  | unmapped read other _ ih =>
    cases takes_of_read h read with
    | exit isExit => exact absurd isExit other
    | ahead _ m le ahead =>
      -- the codes that belong to no key are all that the longer wait adds
      cases ih ahead with
      | exit told taken => exact .exit told taken
      | ahead untold m' le' ahead' => exact .ahead untold m' (Nat.le_trans le' le) ahead'

/-- How a poll gets on. -/
inductive Polls (n : Nat) (rest : List (Option UInt8)) (s : KeySource)
    (outcome : Except String (Option UInt8) × KeySource) : Prop where
  /-- It fails and takes nothing. -/
  | failed (reason : String) (result : outcome.1 = .error reason)
      (kept : outcome.2.entries = s.entries)
  /-- It takes the exit key. -/
  | exit (result : outcome.1 = .ok (some exitKey)) (first : n = 0)
      (taken : outcome.2.entries = rest)
  /-- It takes another entry. -/
  | other (entry : Option UInt8) (result : outcome.1 = .ok entry) (other : entry ≠ some exitKey)
      (m : Nat) (next : n = m + 1) (ahead : ExitAfter m rest outcome.2.entries)

theorem poll_cases (h : ExitAfter n rest s.entries) : Polls n rest s s.poll := by
  unfold poll
  split
  · next reason _ => exact .failed reason rfl rfl
  · cases entries : s.entries with
    | nil =>
      rw [entries] at h
      exact absurd h not_exitAfter_nil
    | cons entry left =>
      rw [entries] at h
      rcases exitAfter_cons h with ⟨rfl, first, taken⟩ | ⟨other, m, next, ahead⟩
      · exact .exit rfl first taken
      · exact .other entry rfl other m next ahead

end

end Chip8.KeySource
