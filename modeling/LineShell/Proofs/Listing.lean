import LineShell.Proofs.Command
import LineShell.Proofs.Decoding

/-!
# The listing of variables

`env` prints each variable as one line. There is no quoting, so a reader that knows nothing else
finds the variables again only if no name holds an equals sign and nothing holds a newline.

* `Environment.listing`: the lines, without their ends.
* `Machine.output_env`: what `env` prints on a stream without a limit.
* `readListing`: the variables that such an output shows; `readListing_encode` says when they are
  those of the environment.
-/

namespace LineShell

namespace Environment

/-- The lines of the variables, in their order. -/
def listing (env : Environment) : List Text := env.entries.map entryText

end Environment

/-! ## Printing -/

theorem Task.flatten_variablePieces (entries : List (Text × Text)) :
    (entries.flatMap variablePieces).flatten =
      Text.ofLines (entries.map Environment.entryText) := by
  induction entries with
  | nil => rfl
  | cons entry rest ih =>
    rw [List.flatMap_cons, List.flatten_append, ih, List.map_cons]
    simp [variablePieces, Environment.entryText, Text.ofLines]

theorem Task.printVariables_printed (tree : FileTree) (s : Session) {out : OutStream}
    (h : out.room = none) :
    (printVariables.perform tree s out).result = .ok 0 ∧
      (printVariables.perform tree s out).printed =
        Utf8.encode (Text.ofLines s.environment.listing) := by
  have hwritten : out.writeTexts (s.environment.entries.flatMap variablePieces) =
      ⟨Utf8.encode (Text.ofLines s.environment.listing), none, out⟩ := by
    rw [OutStream.writeTexts_of_unlimited h, flatten_variablePieces]
    rfl
  rw [perform]
  dsimp only
  rw [Completion.printing, hwritten]
  exact ⟨rfl, rfl⟩

theorem Machine.output_env {m : Machine}
    (h : m.registry.get? Builtin.env.name = some Builtin.env.handler) (args : List Text)
    (s : Session) {io : Streams} (hroom : io.out.room = none) :
    output (m.execute (Builtin.env.name :: args) s io).effects =
      Utf8.encode (Text.ofLines s.environment.listing) := by
  obtain ⟨hresult, hprinted⟩ := Task.printVariables_printed m.tree s hroom
  have hhandler : Builtin.env.handler args = .ok Task.printVariables.perform := rfl
  rw [execute_registered h, runRegistered, hhandler]
  dsimp only
  rw [hresult, hprinted]
  exact List.append_nil _

/-! ## Reading -/

/-- A line cut at its first equals sign. -/
def cutEntry (line : Text) : Text × Text :=
  (line.takeWhile (· != '='), (line.dropWhile (· != '=')).tail)

/-- The entries of a text that is cut at its newlines. What follows the last one is no line. -/
def readListing (bytes : Bytes) : List (Text × Text) :=
  ((Utf8.decode bytes).splitOnP (· == '\n')).dropLast.map cutEntry

theorem cutEntry_entryText {entry : Text × Text} (h : '=' ∉ entry.1) :
    cutEntry (Environment.entryText entry) = entry := by
  have hname : ∀ c ∈ entry.1, (c != '=') = true := by
    intro c hc
    exact bne_iff_ne.mpr fun heq => h (heq ▸ hc)
  rw [cutEntry, Environment.entryText, List.takeWhile_append_of_pos hname,
    List.dropWhile_append_of_pos hname]
  simp

theorem splitOnP_ofLines {lines : List Text} (h : ∀ line ∈ lines, '\n' ∉ line) :
    (Text.ofLines lines).splitOnP (· == '\n') = lines ++ [[]] := by
  induction lines with
  | nil => rfl
  | cons line later ih =>
    obtain ⟨hline, hlater⟩ := List.forall_mem_cons.mp h
    have hpiece : line.splitOnP (· == '\n') = [line] := by
      refine List.splitOnP_eq_singleton fun c hc => ?_
      exact beq_eq_false_iff_ne.mpr fun heq => hline (heq ▸ hc)
    have hcons : Text.ofLines (line :: later) = line ++ '\n' :: Text.ofLines later := by
      simp [Text.ofLines]
    have hcut : (line ++ '\n' :: Text.ofLines later).splitOnP (· == '\n') =
        line.splitOnP (· == '\n') ++ (Text.ofLines later).splitOnP (· == '\n') :=
      List.splitOnP_append_cons line (Text.ofLines later) rfl
    rw [hcons, hcut, hpiece, ih hlater]
    rfl

theorem readListing_encode {env : Environment}
    (hnames : ∀ entry ∈ env.entries, '=' ∉ entry.1)
    (hlines : ∀ entry ∈ env.entries, '\n' ∉ entry.1 ∧ '\n' ∉ entry.2) :
    readListing (Utf8.encode (Text.ofLines env.listing)) = env.entries := by
  have hlisting : ∀ line ∈ env.listing, '\n' ∉ line := by
    intro line hline
    obtain ⟨entry, hentry, rfl⟩ := List.mem_map.mp hline
    obtain ⟨hname, hvalue⟩ := hlines entry hentry
    simp [Environment.entryText, hname, hvalue]
  rw [readListing, Utf8.decode_encode, splitOnP_ofLines hlisting, List.dropLast_concat,
    Environment.listing, List.map_map]
  refine (List.map_congr_left fun entry hentry => ?_).trans (List.map_id _)
  exact cutEntry_entryText (hnames entry hentry)

end LineShell
