import LineShell.Text.Basic

/-!
# Cutting by bytes

Positions in a text are counted in UTF-8 bytes here. A position inside a character is none
at which a text can be cut.

* `Text.dropBytes?`, `Text.takeBytes?`: the text from a position on, and up to it.
* `Text.cut?`: the text between two positions.
* `dropBytes?_append`, `takeBytes?_append`: the end of a first part can always be cut at.
* `cut?_append`: so any part can be cut out.
-/

namespace LineShell.Text

def dropBytes? : Nat → Text → Option Text
  | 0, text => some text
  | _ + 1, [] => none
  | n + 1, c :: rest =>
    if c.utf8Size ≤ n + 1 then dropBytes? (n + 1 - c.utf8Size) rest else none
termination_by structural _ text => text

def takeBytes? : Nat → Text → Option Text
  | 0, _ => some []
  | _ + 1, [] => none
  | n + 1, c :: rest =>
    if c.utf8Size ≤ n + 1 then (takeBytes? (n + 1 - c.utf8Size) rest).map (c :: ·) else none
termination_by structural _ text => text

def cut? (text : Text) (start stop : Nat) : Option Text :=
  (dropBytes? start text).bind (takeBytes? (stop - start))

theorem dropBytes?_append (a b : Text) : dropBytes? a.byteSize (a ++ b) = some b := by
  induction a with
  | nil => cases b <;> rfl
  | cons c rest ih =>
    obtain ⟨n, hn⟩ : ∃ n, byteSize (c :: rest) = n + 1 :=
      ⟨c.utf8Size - 1 + byteSize rest, by have := c.utf8Size_pos; simp; omega⟩
    have hle : c.utf8Size ≤ n + 1 := by simp at hn; omega
    have hrest : n + 1 - c.utf8Size = byteSize rest := by simp at hn; omega
    rw [hn, List.cons_append, dropBytes?, if_pos hle, hrest, ih]

theorem takeBytes?_append (a b : Text) : takeBytes? a.byteSize (a ++ b) = some a := by
  induction a with
  | nil => cases b <;> rfl
  | cons c rest ih =>
    obtain ⟨n, hn⟩ : ∃ n, byteSize (c :: rest) = n + 1 :=
      ⟨c.utf8Size - 1 + byteSize rest, by have := c.utf8Size_pos; simp; omega⟩
    have hle : c.utf8Size ≤ n + 1 := by simp at hn; omega
    have hrest : n + 1 - c.utf8Size = byteSize rest := by simp at hn; omega
    rw [hn, List.cons_append, takeBytes?, if_pos hle, hrest, ih, Option.map_some]

theorem cut?_append (a b c : Text) :
    cut? (a ++ (b ++ c)) a.byteSize (a.byteSize + b.byteSize) = some b := by
  rw [cut?, dropBytes?_append, Option.bind_some, Nat.add_sub_cancel_left, takeBytes?_append]

end LineShell.Text
