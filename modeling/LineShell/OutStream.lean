import LineShell.Error
import LineShell.Text.Utf8

/-!
# Output streams

A stream accepts bytes until its room is used up. A write past the room keeps the bytes that
fit and fails; a write that fits exactly succeeds, and so does an empty one. After a failure the
stream may have room again, up to the next one. Whether a flush succeeds is for each flush to say.

* `OutStream.write`: one write.
* `OutStream.writeAll`: writes in order, of which none is tried after one that failed.
  `writeAll_eq_write` says that they come to one write. `OutStream.writeTexts`: the same for texts.
* `OutStream.flushFailure?`, `OutStream.flushed`: what the next flush fails with, if it does, and
  the stream behind it.
* `OutStream.Lasting`: a failure is not followed by more room. Then a write is that of a first
  part, and then that of the rest (`write_append`).
-/

namespace LineShell

structure OutStream where
  /-- The bytes accepted before a write fails; any number if no write does. -/
  room : Option Nat := none
  /-- What the write fails with. -/
  problem : Text := "disk full".toList
  /-- The room after each failure, with the problem of the next one. After the last failure nothing
  is accepted, and the problem stays. -/
  later : List (Option Nat × Text) := []
  /-- What each of the coming flushes fails with, if it does. -/
  flushes : List (Option Text) := []
  /-- The same for all flushes after these. -/
  lastFlush : Option Text := none
deriving DecidableEq, Repr

/-- What became of a write. -/
structure Written where
  /-- The bytes that reached the stream. -/
  accepted : Bytes
  /-- Why not all of them did, if not all did. -/
  failure : Option Text
  /-- The stream afterwards. -/
  stream : OutStream
deriving DecidableEq, Repr

/-- The result after a write, which is not reached if the write failed. -/
def Written.check (written : Written) (result : Except ShellError Status) :
    Except ShellError Status :=
  match written.failure with
  | none => result
  | some problem => .error (.io problem)

theorem Written.check_of_complete {written : Written} (h : written.failure = none)
    (result : Except ShellError Status) : written.check result = result := by
  rw [check, h]

theorem Written.check_of_failure {written : Written} {problem : Text}
    (h : written.failure = some problem) (result : Except ShellError Status) :
    written.check result = .error (.io problem) := by
  rw [check, h]

namespace OutStream

/-! ## Writing -/

/-- The stream behind a write that failed. -/
def afterFailure (stream : OutStream) : OutStream :=
  match stream.later with
  | [] => { stream with room := some 0 }
  | (room, problem) :: later => { stream with room := room, problem := problem, later := later }

def write (stream : OutStream) (bytes : Bytes) : Written :=
  match stream.room with
  | none => ⟨bytes, none, stream⟩
  | some room =>
    if bytes.length ≤ room then
      ⟨bytes, none, { stream with room := some (room - bytes.length) }⟩
    else
      ⟨bytes.take room, some stream.problem, stream.afterFailure⟩

def writeAll (stream : OutStream) : List Bytes → Written
  | [] => ⟨[], none, stream⟩
  | piece :: rest =>
    let first := stream.write piece
    if first.failure.isSome then first
    else
      let others := first.stream.writeAll rest
      { others with accepted := first.accepted ++ others.accepted }

variable {stream : OutStream} {room : Nat} {first second bytes : Bytes}

theorem write_of_unlimited (h : stream.room = none) (bytes : Bytes) :
    stream.write bytes = ⟨bytes, none, stream⟩ := by
  rw [write, h]

theorem write_of_le (h : stream.room = some room) (hle : bytes.length ≤ room) :
    stream.write bytes = ⟨bytes, none, { stream with room := some (room - bytes.length) }⟩ := by
  rw [write, h]
  exact if_pos hle

theorem write_of_lt (h : stream.room = some room) (hlt : room < bytes.length) :
    stream.write bytes = ⟨bytes.take room, some stream.problem, stream.afterFailure⟩ := by
  rw [write, h]
  exact if_neg (Nat.not_le.mpr hlt)

theorem accepted_write_of_limited (h : stream.room = some room) (bytes : Bytes) :
    (stream.write bytes).accepted = bytes.take room := by
  by_cases hle : bytes.length ≤ room
  · rw [write_of_le h hle, List.take_of_length_le hle]
  · rw [write_of_lt h (Nat.not_le.mp hle)]

theorem write_nil (stream : OutStream) : stream.write [] = ⟨[], none, stream⟩ := by
  cases hroom : stream.room with
  | none => exact write_of_unlimited hroom []
  | some room =>
    have hle : ([] : Bytes).length ≤ room := Nat.zero_le room
    rw [write_of_le hroom hle, List.length_nil, Nat.sub_zero, ← hroom]

theorem exists_room_of_failure (h : (stream.write bytes).failure.isSome) :
    ∃ room, stream.room = some room ∧ room < bytes.length := by
  cases hroom : stream.room with
  | none =>
    rw [write_of_unlimited hroom] at h
    cases h
  | some room =>
    refine ⟨room, rfl, Nat.lt_of_not_le fun hle => ?_⟩
    rw [write_of_le hroom hle] at h
    cases h

/-- The rest is only tried if the first part was written as a whole. -/
theorem write_append_of_failure (h : (stream.write first).failure.isSome) (second : Bytes) :
    stream.write (first ++ second) = stream.write first := by
  obtain ⟨room, hroom, hlt⟩ := exists_room_of_failure h
  have hlonger : room < (first ++ second).length := by
    rw [List.length_append]
    exact Nat.lt_add_right _ hlt
  rw [write_of_lt hroom hlt, write_of_lt hroom hlonger,
    List.take_append_of_le_length (Nat.le_of_lt hlt)]

theorem write_append_of_complete (h : ¬ (stream.write first).failure.isSome) (second : Bytes) :
    stream.write (first ++ second) =
      { (stream.write first).stream.write second with
        accepted := (stream.write first).accepted ++
          ((stream.write first).stream.write second).accepted } := by
  cases hroom : stream.room with
  | none => simp only [write_of_unlimited hroom]
  | some room =>
    by_cases hle : first.length ≤ room
    · have hnext : { stream with room := some (room - first.length) }.room =
          some (room - first.length) := rfl
      rw [write_of_le hroom hle]
      by_cases hrest : second.length ≤ room - first.length
      · have hboth : (first ++ second).length ≤ room := by
          rw [List.length_append]
          omega
        rw [write_of_le hnext hrest, write_of_le hroom hboth, List.length_append, Nat.sub_sub]
      · have hlt := Nat.not_le.mp hrest
        have hboth : room < (first ++ second).length := by
          rw [List.length_append]
          omega
        rw [write_of_lt hnext hlt, write_of_lt hroom hboth, List.take_append,
          List.take_of_length_le hle]
        rfl
    · rw [write_of_lt hroom (Nat.not_le.mp hle)] at h
      exact absurd rfl h

/-- Writing in pieces comes to the same as writing all at once. -/
theorem writeAll_eq_write (stream : OutStream) (pieces : List Bytes) :
    stream.writeAll pieces = stream.write pieces.flatten := by
  induction pieces generalizing stream with
  | nil => rw [writeAll, List.flatten_nil, write_nil]
  | cons piece rest ih =>
    rw [writeAll, List.flatten_cons]
    dsimp only
    split
    · rename_i hfailure
      rw [write_append_of_failure hfailure]
    · rename_i hcomplete
      rw [write_append_of_complete hcomplete, ih]

/-- Write texts one after another. -/
def writeTexts (stream : OutStream) (texts : List Text) : Written :=
  stream.writeAll (texts.map Utf8.encode)

theorem writeTexts_eq_write (stream : OutStream) (texts : List Text) :
    stream.writeTexts texts = stream.write (Utf8.encode texts.flatten) := by
  rw [writeTexts, writeAll_eq_write, ← Utf8.encode_flatten]

theorem writeTexts_of_unlimited (h : stream.room = none) (texts : List Text) :
    stream.writeTexts texts = ⟨Utf8.encode texts.flatten, none, stream⟩ := by
  rw [writeTexts_eq_write, write_of_unlimited h]

/-! ## Flushing -/

def flushFailure? (stream : OutStream) : Option Text := stream.flushes.headD stream.lastFlush

def flushed (stream : OutStream) : OutStream := { stream with flushes := stream.flushes.tail }

/-! ## Streams that stay full -/

/-- Nothing is accepted any more once a write has failed. -/
def Lasting (stream : OutStream) : Prop := stream.room = none ∨ stream.later = []

theorem Lasting.later_eq_nil (h : stream.Lasting) (hroom : stream.room = some room) :
    stream.later = [] := by
  rcases h with hnone | hlater
  · rw [hroom] at hnone
    cases hnone
  · exact hlater

theorem afterFailure_of_later (h : stream.later = []) :
    stream.afterFailure = { stream with room := some 0 } := by
  rw [afterFailure, h]

/-- A stream without room that will get none stays as it is. -/
theorem write_of_full (hroom : stream.room = some 0) (hlater : stream.later = [])
    (bytes : Bytes) :
    (stream.write bytes).accepted = [] ∧ (stream.write bytes).stream = stream := by
  have hsame : { stream with room := some 0 } = stream := by rw [← hroom]
  cases bytes with
  | nil =>
    rw [write_nil]
    exact ⟨rfl, rfl⟩
  | cons byte rest =>
    have hlt : 0 < (byte :: rest).length := Nat.zero_lt_succ _
    rw [write_of_lt hroom hlt, afterFailure_of_later hlater, hsame]
    exact ⟨rfl, rfl⟩

theorem Lasting.write (h : stream.Lasting) (bytes : Bytes) :
    (stream.write bytes).stream.Lasting := by
  cases hroom : stream.room with
  | none =>
    rw [write_of_unlimited hroom]
    exact h
  | some room =>
    have hlater := h.later_eq_nil hroom
    by_cases hle : bytes.length ≤ room
    · rw [write_of_le hroom hle]
      exact Or.inr hlater
    · rw [write_of_lt hroom (Nat.not_le.mp hle), afterFailure_of_later hlater]
      exact Or.inr hlater

/-- Also past the room, where the second write keeps nothing. -/
theorem Lasting.write_append (h : stream.Lasting) (first second : Bytes) :
    (stream.write (first ++ second)).accepted =
        (stream.write first).accepted ++ ((stream.write first).stream.write second).accepted ∧
      (stream.write (first ++ second)).stream =
        ((stream.write first).stream.write second).stream := by
  by_cases hfailure : (stream.write first).failure.isSome
  · obtain ⟨room, hroom, hlt⟩ := exists_room_of_failure hfailure
    have hlater := h.later_eq_nil hroom
    have hwrite := write_of_lt hroom hlt
    rw [afterFailure_of_later hlater] at hwrite
    have hfull : (stream.write first).stream.room = some 0 := by rw [hwrite]
    have hnever : (stream.write first).stream.later = [] := by
      rw [hwrite]
      exact hlater
    obtain ⟨haccepted, hstream⟩ := write_of_full hfull hnever second
    rw [write_append_of_failure hfailure, haccepted, hstream, List.append_nil]
    exact ⟨rfl, rfl⟩
  · rw [write_append_of_complete hfailure]
    exact ⟨rfl, rfl⟩

end OutStream

end LineShell
