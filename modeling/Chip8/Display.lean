import Chip8.Frame

/-!
# Displays

The machine shows its picture on a `Display`, which keeps what it was given.
Showing a picture may fail, as `faultAt` lays down. At the end the display is
asked to hand back what it took over, which may fail as `releaseFaultAt` lays down;
one that `owns` nothing takes no notice.
-/

namespace Chip8

/-- Where pictures are shown. -/
structure Display where
  /-- The pictures that were shown, newest first. -/
  shown : List Picture := []
  /-- How many pictures it was asked to show, also in vain. -/
  draws : Nat := 0
  /-- How many times it handed back what it had taken over. -/
  releases : Nat := 0
  /-- Whether it has taken over anything. -/
  owns : Bool := true
  /-- What is wrong with the `k`-th drawing, counted from one, if it fails. -/
  faultAt : Nat → Option String := fun _ => none
  /-- What is wrong with handing back, if it is the same every time. -/
  releaseFault : Option String := none
  /-- What is wrong with handing back for the `k`-th time, counted from one, if it fails. -/
  releaseFaultAt : Nat → Option String := fun _ => releaseFault

instance : Inhabited Display := ⟨{}⟩

namespace Display

/-- Show a picture. -/
def draw (d : Display) (picture : Picture) : Except String Unit × Display :=
  let d := { d with draws := d.draws + 1 }
  match d.faultAt d.draws with
  | some reason => (.error reason, d)
  | none => (.ok (), { d with shown := picture :: d.shown })

/-- Hand back what was taken over. -/
def release (d : Display) : Except String Unit × Display :=
  if d.owns then
    let d := { d with releases := d.releases + 1 }
    match d.releaseFaultAt d.releases with
    | some reason => (.error reason, d)
    | none => (.ok (), d)
  else (.ok (), d)

theorem draw_eq (d : Display) (picture : Picture) :
    ∃ shown, (d.draw picture).2 = { d with draws := d.draws + 1, shown } := by
  unfold draw
  simp only
  split
  · exact ⟨_, rfl⟩
  · exact ⟨_, rfl⟩

@[simp] theorem draws_draw (d : Display) (picture : Picture) :
    (d.draw picture).2.draws = d.draws + 1 := by
  obtain ⟨_, eq⟩ := d.draw_eq picture
  rw [eq]

theorem shown_draw {d : Display} {picture : Picture} (h : (d.draw picture).1 = .ok ()) :
    (d.draw picture).2.shown = picture :: d.shown := by
  unfold draw at h ⊢
  simp only at h ⊢
  split at h
  · cases h
  · rfl

theorem release_eq (d : Display) :
    d.release.2 = { d with releases := d.releases + if d.owns then 1 else 0 } := by
  unfold release
  split
  · simp only
    split
    · rfl
    · rfl
  · rfl

end Display

end Chip8
