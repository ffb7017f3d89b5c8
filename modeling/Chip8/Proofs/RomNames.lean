import Mathlib.Data.List.Forall2
import Chip8.RomName

/-!
# What a file's name asks for

A path may lead through directories and may end in slashes and single dots; what counts is the
last component before these, and of that what follows its last dot. This module says so without
cutting a path into pieces: `Names path name` holds if the path is something that is empty or
ends in a slash, then the name, then a `Tail`.

  * `pieces_induction` — a path is one piece, or a piece, a slash and a path.
  * `getLast?_components_eq_some_iff`, `extension?_eq_some_iff` — the component and the extension
    that are found are those that the path spells out.
  * `isText_of_ascii` — an extension that asks for something is text in any case.
  * `SameText` — bytes that differ in the case of letters alone; `ofRomName_map_lower` carries
    them through the whole of a path.

`dialect_of_extension` says which dialect a path asks for, and what makes no difference.
-/

namespace Chip8

namespace Bytes

variable {separator : UInt8}

/-! ## Pieces -/

theorem split_ne_nil (bytes : List UInt8) : split separator bytes ≠ [] := by
  cases bytes with
  | nil => exact List.cons_ne_nil _ _
  | cons byte rest =>
    rw [split]
    split
    · exact List.cons_ne_nil _ _
    · split
      · exact List.cons_ne_nil _ _
      · exact List.cons_ne_nil _ _

theorem split_of_notMem {bytes : List UInt8} (h : separator ∉ bytes) :
    split separator bytes = [bytes] := by
  induction bytes with
  | nil => rfl
  | cons byte rest ih =>
    obtain ⟨other, later⟩ := List.ne_and_not_mem_of_not_mem_cons h
    rw [split, if_neg other.symm, ih later]

theorem split_append_cons (first second : List UInt8) :
    split separator (first ++ separator :: second) =
      split separator first ++ split separator second := by
  induction first with
  | nil => exact if_pos rfl
  | cons byte rest ih =>
    rw [List.cons_append, split, split, ih]
    split
    · rfl
    · cases pieces : split separator rest with
      | nil => exact absurd pieces (split_ne_nil rest)
      | cons piece others => rfl

/-- A change of bytes that keeps the separator apart from the others changes each piece. -/
theorem split_map {f : UInt8 → UInt8} (apart : ∀ byte, f byte = separator ↔ byte = separator)
    (bytes : List UInt8) :
    split separator (bytes.map f) = (split separator bytes).map (·.map f) := by
  induction bytes with
  | nil => rfl
  | cons byte rest ih =>
    rw [List.map_cons, split, split, ih]
    by_cases same : byte = separator
    · rw [if_pos same, if_pos ((apart byte).mpr same)]
      rfl
    · rw [if_neg same, if_neg fun h => same ((apart byte).mp h)]
      cases split separator rest with
      | nil => rfl
      | cons piece others => rfl

theorem isText_of_ascii {bytes : List UInt8} (ascii : ∀ byte ∈ bytes, byte < 0x80) :
    isText bytes = true := by
  have encoded : bytes = (bytes.map Char.ofUInt8).flatMap String.utf8EncodeChar := by
    induction bytes with
    | nil => rfl
    | cons byte rest ih =>
      have small : byte.toNat < 128 := UInt8.lt_iff_toNat_lt.mp (ascii byte List.mem_cons_self)
      have single : (Char.ofUInt8 byte).utf8Size = 1 := by
        rw [Char.utf8Size_eq_one_iff, UInt32.le_iff_toNat_le]
        show byte.toUInt32.toNat ≤ 127
        rw [UInt8.toNat_toUInt32]
        omega
      rw [List.map_cons, List.flatMap_cons, String.utf8EncodeChar_eq_singleton single,
        ← ih fun later mem => ascii later (List.mem_cons_of_mem byte mem)]
      show byte :: rest = byte.toUInt32.toUInt8 :: rest
      rw [UInt8.toUInt8_toUInt32]
  have valid : (ByteArray.mk bytes.toArray).IsValidUTF8 := by
    refine .intro (bytes.map Char.ofUInt8) ?_
    rw [List.utf8Encode, ← encoded]
    exact ByteArray.ext List.data_toByteArray.symm
  rw [isText, String.fromUTF8?, dif_pos valid]
  rfl

end Bytes

namespace RomName

open PathName (slash dot above)

/-! ## The case of letters -/

/-- Two bytes are the same, or an ASCII letter in its two cases. -/
def SameLetter (a b : UInt8) : Prop :=
  a = b ∨ (0x41 ≤ a ∧ a ≤ 0x5A ∧ b = a + 0x20) ∨ (0x41 ≤ b ∧ b ≤ 0x5A ∧ a = b + 0x20)

/-- Two lists of bytes differ in the case of ASCII letters alone. -/
abbrev SameText : List UInt8 → List UInt8 → Prop := List.Forall₂ SameLetter

theorem toNat_lower (byte : UInt8) :
    (lower byte).toNat =
      if 0x41 ≤ byte.toNat ∧ byte.toNat ≤ 0x5A then byte.toNat + 0x20 else byte.toNat := by
  have bounds : 0x41 ≤ byte ∧ byte ≤ 0x5A ↔ 0x41 ≤ byte.toNat ∧ byte.toNat ≤ 0x5A := Iff.rfl
  unfold lower
  by_cases upper : 0x41 ≤ byte ∧ byte ≤ 0x5A
  · rw [if_pos upper, if_pos (bounds.mp upper), UInt8.toNat_add]
    have := bounds.mp upper
    show (byte.toNat + 32) % 256 = byte.toNat + 32
    omega
  · rw [if_neg upper, if_neg fun h => upper (bounds.mpr h)]

theorem lower_eq_lower_iff {a b : UInt8} : lower a = lower b ↔ SameLetter a b := by
  have shifted (c : UInt8) : (c + 0x20).toNat = (c.toNat + 32) % 256 := UInt8.toNat_add c 0x20
  have small (c : UInt8) : c.toNat < 256 := c.toNat_lt
  simp only [SameLetter, ← UInt8.toNat_inj, UInt8.le_iff_toNat_le, toNat_lower, shifted]
  have := small a
  have := small b
  show _ ↔ _ ∨ (65 ≤ a.toNat ∧ a.toNat ≤ 90 ∧ _) ∨ (65 ≤ b.toNat ∧ b.toNat ≤ 90 ∧ _)
  split <;> split <;> omega

theorem map_lower_eq_iff {p q : List UInt8} : p.map lower = q.map lower ↔ SameText p q := by
  rw [← List.forall₂_eq_eq_eq, List.forall₂_map_left_iff, List.forall₂_map_right_iff]
  simp only [lower_eq_lower_iff]

/-- A byte that is no letter is told apart from the others in any case. -/
theorem lower_eq_iff_of_lt {byte other : UInt8} (noLetter : other < 0x41) :
    lower byte = other ↔ byte = other := by
  have small : other.toNat < 65 := UInt8.lt_iff_toNat_lt.mp noLetter
  rw [← UInt8.toNat_inj, ← UInt8.toNat_inj, toNat_lower]
  split
  · omega
  · rfl

/-! ## The last component -/

/-- What may follow the name of a file without telling of another one: slashes, and slashes
with a single dot behind them. -/
inductive Tail : List UInt8 → Prop
  | none : Tail []
  | slash {tail : List UInt8} : Tail tail → Tail (slash :: tail)
  | here {tail : List UInt8} : Tail tail → Tail (slash :: dot :: tail)

/-- What may stand before a name: nothing, or something that ends in a slash. -/
def Leads (front : List UInt8) : Prop := front = [] ∨ ∃ directory, front = directory ++ [slash]

/-- A component that counts. -/
structure IsComponent (name : List UInt8) : Prop where
  whole : slash ∉ name
  filled : name ≠ []
  away : name ≠ [dot]

/-- The last component of a path. -/
def Names (path name : List UInt8) : Prop :=
  ∃ front tail, path = front ++ name ++ tail ∧ Leads front ∧ IsComponent name ∧ Tail tail

/-- A path is one piece, or a piece, a slash and a path. -/
theorem pieces_induction {motive : List UInt8 → Prop}
    (piece : ∀ first, slash ∉ first → motive first)
    (join : ∀ first rest, slash ∉ first → motive rest → motive (first ++ slash :: rest))
    (path : List UInt8) : motive path := by
  induction size : path.length using Nat.strongRecOn generalizing path with
  | ind n ih =>
    by_cases cut : slash ∈ path
    · obtain ⟨first, rest, rfl, whole⟩ := List.eq_append_cons_of_mem cut
      refine join first rest whole (ih rest.length ?_ rest rfl)
      rw [← size, List.length_append, List.length_cons]
      omega
    · exact piece path cut

theorem components_append_cons (first second : List UInt8) :
    components (first ++ slash :: second) = components first ++ components second := by
  rw [components, Bytes.split_append_cons, List.filter_append]
  rfl

theorem components_of_isComponent {name : List UInt8} (is : IsComponent name) :
    components name = [name] := by
  rw [components, Bytes.split_of_notMem is.whole]
  simp [is.filled, is.away]

/-- A piece is a component, or it is passed over. -/
theorem components_piece {piece : List UInt8} (whole : slash ∉ piece) :
    components piece = [piece] ∧ IsComponent piece ∨
      components piece = [] ∧ (piece = [] ∨ piece = [dot]) := by
  by_cases passed : piece = [] ∨ piece = [dot]
  · refine .inr ⟨?_, passed⟩
    rcases passed with rfl | rfl
    · rfl
    · rfl
  · obtain ⟨filled, away⟩ := not_or.mp passed
    have is : IsComponent piece := ⟨whole, filled, away⟩
    exact .inl ⟨components_of_isComponent is, is⟩

theorem components_append_tail {tail : List UInt8} (h : Tail tail) (path : List UInt8) :
    components (path ++ tail) = components path := by
  induction h generalizing path with
  | none => rw [List.append_nil]
  | slash _ ih =>
    rw [components_append_cons]
    exact (congrArg _ (ih [])).trans (List.append_nil _)
  | here _ ih =>
    rw [components_append_cons]
    exact (congrArg _ (ih [dot])).trans (List.append_nil _)

theorem components_leads_append {front : List UInt8} (h : Leads front) (path : List UInt8) :
    components (front ++ path) = components front ++ components path := by
  rcases h with rfl | ⟨directory, rfl⟩
  · rfl
  · rw [List.append_assoc, List.singleton_append, components_append_cons, components_append_cons]
    exact congrArg (· ++ _) (List.append_nil _).symm

theorem tail_of_components_eq_nil {path : List UInt8} (h : components path = []) :
    Tail (slash :: path) := by
  induction path using pieces_induction with
  | piece first whole =>
    rcases components_piece whole with ⟨one, -⟩ | ⟨-, rfl | rfl⟩
    · cases one.symm.trans h
    · exact .slash .none
    · exact .here .none
  | join first rest whole ih =>
    rw [components_append_cons, List.append_eq_nil_iff] at h
    rcases components_piece whole with ⟨one, -⟩ | ⟨-, rfl | rfl⟩
    · cases one.symm.trans h.1
    · exact .slash (ih h.2)
    · exact .here (ih h.2)

theorem names_append_tail {name tail : List UInt8} (is : IsComponent name) (ends : Tail tail) :
    Names (name ++ tail) name :=
  ⟨[], tail, rfl, .inl rfl, is, ends⟩

theorem Names.behind {rest name : List UInt8} (first : List UInt8) (h : Names rest name) :
    Names (first ++ slash :: rest) name := by
  obtain ⟨front, tail, rfl, leads, is, ends⟩ := h
  refine ⟨first ++ slash :: front, tail, by simp, .inr ?_, is, ends⟩
  rcases leads with rfl | ⟨directory, rfl⟩
  · exact ⟨first, rfl⟩
  · exact ⟨first ++ slash :: directory, by simp⟩

theorem names_of_getLast?_components {path name : List UInt8}
    (last : (components path).getLast? = some name) : Names path name := by
  induction path using pieces_induction with
  | piece first whole =>
    rcases components_piece whole with ⟨one, is⟩ | ⟨none, -⟩
    · rw [one] at last
      obtain rfl := Option.some.inj last
      simpa using names_append_tail is .none
    · rw [none] at last
      cases last
  | join first rest whole ih =>
    rw [components_append_cons, List.getLast?_append] at last
    -- the first piece is the name only if nothing behind it is a component
    cases later : (components rest).getLast? with
    | some found =>
      rw [later] at last
      obtain rfl := Option.some.inj last
      exact (ih later).behind first
    | none =>
      have ends : Tail (slash :: rest) :=
        tail_of_components_eq_nil (List.getLast?_eq_none_iff.mp later)
      rw [later, Option.none_or] at last
      rcases components_piece whole with ⟨one, is⟩ | ⟨none, -⟩
      · rw [one] at last
        obtain rfl := Option.some.inj last
        exact names_append_tail is ends
      · rw [none] at last
        cases last

theorem getLast?_components_eq_some_iff {path name : List UInt8} :
    (components path).getLast? = some name ↔ Names path name := by
  constructor
  · exact names_of_getLast?_components
  · rintro ⟨front, tail, rfl, leads, is, ends⟩
    rw [components_append_tail ends, components_leads_append leads,
      components_of_isComponent is, List.getLast?_append]
    rfl

theorem fileName?_eq_some_iff {path name : List UInt8} :
    fileName? path = some name ↔ Names path name ∧ name ≠ above := by
  rw [fileName?, Option.filter_eq_some_iff, getLast?_components_eq_some_iff, bne_iff_ne]
  rfl

/-! ## The extension -/

/-- What follows the last dot of a name, where something stands before that dot. -/
def Extends (name ext : List UInt8) : Prop :=
  ∃ stem, name = stem ++ dot :: ext ∧ stem ≠ [] ∧ dot ∉ ext

theorem extension?_append {stem ext : List UInt8} (filled : stem ≠ []) (undotted : dot ∉ ext) :
    extension? (stem ++ dot :: ext) = some ext := by
  have passed : ∀ byte ∈ ext.reverse, (byte != dot) = true := fun byte mem =>
    bne_iff_ne.mpr fun same => undotted (same ▸ List.mem_reverse.mp mem)
  have reversed : (stem ++ dot :: ext).reverse = ext.reverse ++ dot :: stem.reverse := by simp
  obtain ⟨first, before, stem_eq⟩ : ∃ first before, stem.reverse = first :: before :=
    List.exists_cons_of_ne_nil (by simpa using filled)
  unfold extension?
  simp only [reversed, stem_eq]
  rw [List.dropWhile_append_of_pos passed, List.takeWhile_append_of_pos passed,
    List.dropWhile_cons_of_neg (by decide), List.takeWhile_cons_of_neg (by decide),
    List.append_nil, List.reverse_reverse]

theorem extends_of_extension? {name ext : List UInt8} (h : extension? name = some ext) :
    Extends name ext := by
  have whole := @List.takeWhile_append_dropWhile _ (· != dot) name.reverse
  have stops := List.head?_dropWhile_not (· != dot) name.reverse
  have undotted : dot ∉ name.reverse.takeWhile (· != dot) := fun mem =>
    absurd (List.all_eq_true.mp List.all_takeWhile dot mem) (by decide)
  unfold extension? at h
  simp only at h
  split at h
  · cases h
  · cases h
  · next first second before found =>
    rw [found] at whole stops
    obtain rfl : first = dot := by simpa using stops
    obtain rfl := Option.some.inj h
    refine ⟨(second :: before).reverse, ?_, by simp, fun mem => undotted (List.mem_reverse.mp mem)⟩
    generalize name.reverse.takeWhile (· != dot) = after at whole
    rw [← List.reverse_reverse name, ← whole]
    simp

theorem extension?_eq_some_iff {name ext : List UInt8} :
    extension? name = some ext ↔ Extends name ext := by
  constructor
  · exact extends_of_extension?
  · rintro ⟨stem, rfl, filled, undotted⟩
    exact extension?_append filled undotted

/-- The extension of a path: that of its last component, unless this is the way up. -/
def HasExtension (path ext : List UInt8) : Prop :=
  ∃ name, Names path name ∧ name ≠ above ∧ Extends name ext

theorem bind_extension?_eq_some_iff {path ext : List UInt8} :
    (fileName? path).bind extension? = some ext ↔ HasExtension path ext := by
  simp only [Option.bind_eq_some_iff, fileName?_eq_some_iff, extension?_eq_some_iff, and_assoc]
  rfl

theorem extension?_eq_none_of_hidden {rest : List UInt8} (undotted : dot ∉ rest) :
    extension? (dot :: rest) = none := by
  cases found : extension? (dot :: rest) with
  | none => rfl
  | some ext =>
    obtain ⟨stem, name, filled, -⟩ := extends_of_extension? found
    cases stem with
    | nil => exact absurd rfl filled
    | cons first before =>
      obtain ⟨-, rfl⟩ := List.cons.inj name
      exact absurd (List.mem_append_right before List.mem_cons_self) undotted

/-! ## Letters in the other case -/

theorem map_lower_eq_iff_of_all {word : List UInt8} (noLetters : word.all (· < 0x41) = true)
    (bytes : List UInt8) : bytes.map lower = word ↔ bytes = word := by
  induction bytes generalizing word with
  | nil => rfl
  | cons byte rest ih =>
    cases word with
    | nil => simp
    | cons first later =>
      obtain ⟨noLetter, others⟩ : first < 0x41 ∧ later.all (· < 0x41) = true := by
        simpa using noLetters
      rw [List.map_cons, List.cons.injEq, List.cons.injEq, lower_eq_iff_of_lt noLetter, ih others]

theorem components_map_lower (path : List UInt8) :
    components (path.map lower) = (components path).map (·.map lower) := by
  have apart (byte : UInt8) : lower byte = slash ↔ byte = slash :=
    lower_eq_iff_of_lt (by decide)
  rw [components, Bytes.split_map apart, List.filter_map, components]
  congr 1
  apply List.filter_congr
  intro piece _
  have same : piece.map lower = [dot] ↔ piece = [dot] := map_lower_eq_iff_of_all rfl piece
  rw [Bool.eq_iff_iff]
  simp [same]

theorem fileName?_map_lower (path : List UInt8) :
    fileName? (path.map lower) = (fileName? path).map (·.map lower) := by
  rw [fileName?, components_map_lower, List.getLast?_map, Option.filter_map, fileName?]
  congr 2
  funext name
  have same : name.map lower = [dot, dot] ↔ name = [dot, dot] :=
    map_lower_eq_iff_of_all rfl name
  rw [Bool.eq_iff_iff]
  simp [same]

theorem extension?_map_lower (name : List UInt8) :
    extension? (name.map lower) = (extension? name).map (·.map lower) := by
  have apart : (· != dot) ∘ lower = (· != dot) := by
    funext byte
    have same : lower byte = dot ↔ byte = dot := lower_eq_iff_of_lt (by decide)
    rw [Bool.eq_iff_iff]
    simp [same]
  unfold extension?
  simp only [← List.map_reverse, List.dropWhile_map, List.takeWhile_map, apart]
  cases name.reverse.dropWhile (· != dot) with
  | nil => rfl
  | cons first before =>
    cases before with
    | nil => rfl
    | cons second before => rfl

theorem lower_lower (byte : UInt8) : lower (lower byte) = lower byte := by
  rw [← UInt8.toNat_inj, toNat_lower, toNat_lower]
  by_cases upper : 0x41 ≤ byte.toNat ∧ byte.toNat ≤ 0x5A
  · rw [if_pos upper, if_neg (by omega)]
  · rw [if_neg upper, if_neg upper]

theorem map_lower_map_lower (bytes : List UInt8) :
    (bytes.map lower).map lower = bytes.map lower := by
  rw [List.map_map]
  exact List.map_congr_left fun byte _ => lower_lower byte

theorem le_lower (byte : UInt8) : byte.toNat ≤ (lower byte).toNat := by
  rw [toNat_lower]
  split <;> omega

end RomName

namespace Dialect

open RomName
open PathName (slash dot above)

/-! ## The dialect -/

/-- Nothing but the extension counts, in lower case. -/
theorem ofRomName_congr {path path' : List UInt8}
    (same : ((fileName? path).bind extension?).map (·.map lower) =
      ((fileName? path').bind extension?).map (·.map lower)) :
    ofRomName path = ofRomName path' := by
  unfold ofRomName
  rw [same]

theorem ofRomName_map_lower (path : List UInt8) : ofRomName (path.map lower) = ofRomName path := by
  apply ofRomName_congr
  rw [fileName?_map_lower]
  cases fileName? path with
  | none => rfl
  | some name =>
    show (extension? (name.map lower)).map _ = (extension? name).map _
    rw [extension?_map_lower, Option.map_map]
    congr 1
    funext ext
    exact map_lower_map_lower ext

theorem ofRomName_of_fileName? {path name : List UInt8} (h : fileName? path = some name) :
    ofRomName path = ofRomName name := by
  obtain ⟨⟨_, _, -, -, is, -⟩, down⟩ := fileName?_eq_some_iff.mp h
  have alone : Names name name := by simpa using names_append_tail is .none
  apply ofRomName_congr
  rw [h, fileName?_eq_some_iff.mpr ⟨alone, down⟩]

theorem ofRomName_of_no_extension {path : List UInt8}
    (h : (fileName? path).bind extension? = none) : ofRomName path = {} := by
  unfold ofRomName
  rw [h]
  rfl

/-- A word in lower case is what an extension comes to that spells it in any case, and such an
extension is text. -/
theorem suffix_eq_some_iff {path word : List UInt8} (small : word.map lower = word)
    (ascii : word.all (· < 0x80) = true) :
    ((fileName? path).bind extension?).map (·.map lower) = some word ↔
      ∃ ext, HasExtension path ext ∧ Bytes.isText ext = true ∧ SameText ext word := by
  have text (ext : List UInt8) (same : ext.map lower = word) : Bytes.isText ext = true := by
    apply Bytes.isText_of_ascii
    intro byte mem
    have listed : lower byte ∈ word := same ▸ List.mem_map_of_mem mem
    have bound : lower byte < 0x80 := of_decide_eq_true (List.all_eq_true.mp ascii _ listed)
    exact UInt8.lt_iff_toNat_lt.mpr
      (Nat.lt_of_le_of_lt (le_lower byte) (UInt8.lt_iff_toNat_lt.mp bound))
  simp only [Option.map_eq_some_iff, bind_extension?_eq_some_iff]
  constructor
  · rintro ⟨ext, is, same⟩
    exact ⟨ext, is, text ext same, map_lower_eq_iff.mp (same.trans small.symm)⟩
  · rintro ⟨ext, is, -, same⟩
    exact ⟨ext, is, (map_lower_eq_iff.mpr same).trans small⟩

/-- The words that ask for shifts in place. -/
def shiftWords : List (List UInt8) := [[letterL], [letterS, letterL], [letterL, letterS]]

/-- The words that ask for an index that stays. -/
def indexWords : List (List UInt8) := [[letterS], [letterS, letterL], [letterL, letterS]]

/-- The extension of a path is text and spells one of some words in whatever case. -/
def Spells (path : List UInt8) (words : List (List UInt8)) : Prop :=
  ∃ ext, HasExtension path ext ∧ Bytes.isText ext = true ∧ ∃ word ∈ words, SameText ext word

theorem spells_iff {path : List UInt8} {words : List (List UInt8)}
    (small : ∀ word ∈ words, word.map lower = word ∧ word.all (· < 0x80) = true) :
    Spells path words ↔
      ∃ word ∈ words, ((fileName? path).bind extension?).map (·.map lower) = some word := by
  constructor
  · rintro ⟨ext, is, text, word, mem, same⟩
    obtain ⟨lowered, ascii⟩ := small word mem
    exact ⟨word, mem, (suffix_eq_some_iff lowered ascii).mpr ⟨ext, is, text, same⟩⟩
  · rintro ⟨word, mem, suffix⟩
    obtain ⟨lowered, ascii⟩ := small word mem
    obtain ⟨ext, is, text, same⟩ := (suffix_eq_some_iff lowered ascii).mp suffix
    exact ⟨ext, is, text, word, mem, same⟩

theorem shiftInPlace_ofRomName (path : List UInt8) :
    (ofRomName path).shiftInPlace = true ↔ Spells path shiftWords := by
  rw [spells_iff (by decide)]
  unfold ofRomName
  simp [shiftWords, or_comm]

theorem keepIndex_ofRomName (path : List UInt8) :
    (ofRomName path).keepIndex = true ↔ Spells path indexWords := by
  rw [spells_iff (by decide)]
  unfold ofRomName
  simp [indexWords, or_comm]

theorem ofRomName_of_names {path name : List UInt8} (names : Names path name)
    (down : name ≠ above) : ofRomName path = ofRomName name :=
  ofRomName_of_fileName? (fileName?_eq_some_iff.mpr ⟨names, down⟩)

theorem ofRomName_of_hidden {path rest : List UInt8} (names : Names path (dot :: rest))
    (undotted : dot ∉ rest) : ofRomName path = {} := by
  have down : dot :: rest ≠ above := by
    rintro same
    obtain rfl := (List.cons.inj same).2
    exact undotted List.mem_cons_self
  apply ofRomName_of_no_extension
  rw [fileName?_eq_some_iff.mpr ⟨names, down⟩]
  exact extension?_eq_none_of_hidden undotted

theorem ofRomName_of_above {path : List UInt8} (names : Names path above) :
    ofRomName path = {} := by
  apply ofRomName_of_no_extension
  rw [fileName?, getLast?_components_eq_some_iff.mpr names]
  rfl

/-- **The dialect of an extension.** A path asks for shifts in place exactly if its extension is
text and reads `l`, `sl` or `ls` in whatever case, for an index that stays if it reads `s`, `sl`
or `ls`, and never for anything else. So it makes no difference through which directories a file
is reached, dots in their names or not, nor what slashes and single dots come after its name, nor
in which case any letter is written. A name with no dot but the one it begins with asks for
nothing, and neither does a path that ends on the way up. -/
theorem dialect_of_extension :
    (∀ path : List UInt8,
      let asked := ofRomName path
      (asked.shiftInPlace = true ↔ Spells path shiftWords) ∧
      (asked.keepIndex = true ↔ Spells path indexWords) ∧
      asked.resetFlag = false ∧ asked.jumpByDigit = false ∧ asked.carryOrder = false) ∧
    (∀ directory name tail : List UInt8, IsComponent name → name ≠ above → Tail tail →
      ofRomName (directory ++ [slash] ++ name ++ tail) = ofRomName name ∧
      ∀ other : List UInt8,
        ofRomName (directory ++ [slash] ++ name ++ tail) =
          ofRomName (other ++ [slash] ++ name ++ tail)) ∧
    (∀ path path' : List UInt8, SameText path path' → ofRomName path = ofRomName path') ∧
    (∀ front rest tail : List UInt8,
      Leads front → IsComponent (dot :: rest) → dot ∉ rest → Tail tail →
      ofRomName (front ++ dot :: rest ++ tail) = {}) ∧
    ∀ front tail : List UInt8, Leads front → Tail tail →
      ofRomName (front ++ above ++ tail) = {} := by
  refine ⟨fun path => ?asked, fun directory name tail is down ends => ?reached,
    fun path path' same => ?cases, fun front rest tail leads is undotted ends => ?hidden,
    fun front tail leads ends => ?up⟩
  case asked => exact ⟨shiftInPlace_ofRomName path, keepIndex_ofRomName path, rfl, rfl, rfl⟩
  case reached =>
    have through (front : List UInt8) :
        ofRomName (front ++ [slash] ++ name ++ tail) = ofRomName name :=
      ofRomName_of_names ⟨_, tail, rfl, .inr ⟨front, rfl⟩, is, ends⟩ down
    exact ⟨through directory, fun other => (through directory).trans (through other).symm⟩
  case cases =>
    rw [← ofRomName_map_lower path, ← ofRomName_map_lower path', map_lower_eq_iff.mpr same]
  case hidden => exact ofRomName_of_hidden ⟨front, tail, rfl, leads, is, ends⟩ undotted
  case up =>
    have is : IsComponent above := ⟨by decide, by decide, by decide⟩
    exact ofRomName_of_above ⟨front, tail, rfl, leads, is, ends⟩

/-- The path `v.l/a.b.Ls/./` asks for both, as `a.b.Ls` and `a.b.lS` do; `v.l/.s` and `v.l/../`
ask for nothing. -/
theorem dialect_of_extension_below_dots :
    let directory : List UInt8 := [0x76, 0x2E, 0x6C]
    let name : List UInt8 := [0x61, 0x2E, 0x62, 0x2E, 0x4C, 0x73]
    let turned : List UInt8 := [0x61, 0x2E, 0x62, 0x2E, 0x6C, 0x53]
    let tail : List UInt8 := [0x2F, 0x2E, 0x2F]
    IsComponent name ∧ name ≠ above ∧ Tail tail ∧ SameText name turned ∧
      ofRomName (directory ++ [slash] ++ name ++ tail) = ofRomName name ∧
      ofRomName name = { shiftInPlace := true, keepIndex := true } ∧
      ofRomName name = ofRomName turned ∧
      ofRomName (directory ++ [slash] ++ [dot, 0x73] ++ []) = {} ∧
      ofRomName (directory ++ [slash] ++ above ++ tail) = {} := by
  intro directory name turned tail
  have is : IsComponent name := ⟨by decide, by decide, by decide⟩
  have down : name ≠ above := by decide
  have ends : Tail tail := .here (.slash .none)
  have same : SameText name turned := map_lower_eq_iff.mp (by decide)
  obtain ⟨-, reached, cases, hidden, up⟩ := dialect_of_extension
  have leads : Leads (directory ++ [slash]) := .inr ⟨directory, rfl⟩
  have isHidden : IsComponent [dot, 0x73] := ⟨by decide, by decide, by decide⟩
  exact ⟨is, down, ends, same, (reached directory name tail is down ends).1, by decide,
    cases name turned same, hidden _ [0x73] [] leads isHidden (by decide) .none,
    up _ tail leads ends⟩

end Dialect

end Chip8
