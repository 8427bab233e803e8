/-!
# Output

The bytes that a program has printed, and how many it may print in all.  A text that does not fit is
printed as far as it does.
-/

namespace LoxLang

/-- What has been printed. -/
structure Output where
  written : ByteArray
  /-- How many bytes may be written in all; none if there is no limit. -/
  capacity : Option Nat

namespace Output

/-- Nothing written yet. -/
def empty (capacity : Option Nat) : Output :=
  ⟨.empty, capacity⟩

/-- Writes a text, and says whether all of it fitted. -/
def write (output : Output) (text : String) : Output × Bool :=
  let bytes := text.toUTF8
  match output.capacity with
  | none => ({ output with written := output.written ++ bytes }, true)
  | some capacity =>
      let room := capacity - output.written.size
      if bytes.size ≤ room then
        ({ output with written := output.written ++ bytes }, true)
      else
        ({ output with written := output.written ++ bytes.extract 0 room }, false)

/-- Without a limit every text fits. -/
theorem write_of_capacity_eq_none (output : Output) (text : String)
    (h : output.capacity = none) :
    output.write text = ({ output with written := output.written ++ text.toUTF8 }, true) := by
  simp [write, h]

/-- Writing leaves the limit as it is. -/
theorem capacity_write (output : Output) (text : String) :
    (output.write text).1.capacity = output.capacity := by
  unfold write
  split
  · rfl
  · simp only
    split <;> rfl

end Output

end LoxLang
