import LineShell.Proofs.Decoding
import LineShell.Proofs.Loop
import LineShell.Proofs.Respacing

/-!
# Line endings

How the lines of an input are ended makes no difference to a loop over it. Reading takes one
carriage return off each line end, and one that it leaves is a blank at the end of the line, so
the line is processed as it would be without.

* `Machine.loop_of_eqOrReturn`: inputs whose lines are the same, but for a carriage return at the
  end, lead to the same run.
* `Machine.loop_lineEndings`: with a carriage return in front of every newline, or with a newline
  behind the last line, an input leads to the same run.
-/

namespace LineShell

namespace Machine

theorem processLine_of_eqOrReturn (m : Machine) {a b : Bytes} (h : EqOrReturn 0x0D a b)
    (s : Session) (io : Streams) :
    m.processLine (Utf8.decode a) s io = m.processLine (Utf8.decode b) s io := by
  rcases h with rfl | rfl
  · rfl
  · rw [Utf8.decode_concat_return]
    exact m.processLine_concat_blank (Utf8.decode b) rfl s io

theorem loop_of_eqOrReturn (m : Machine) {x y : Bytes}
    (h : List.Forall₂ (EqOrReturn 0x0D) (cutLines 0x0A 0x0D x) (cutLines 0x0A 0x0D y))
    (interrupted : Bool) (s : Session) (io : Streams) :
    m.loop interrupted (inputEvents x) s io = m.loop interrupted (inputEvents y) s io := by
  have hlines : List.Forall₂ (fun a b => ∀ s io, m.processLine a s io = m.processLine b s io)
      (readLines x) (readLines y) := by
    rw [readLines, readLines, List.forall₂_map_left_iff, List.forall₂_map_right_iff]
    exact h.imp (fun _ _ hline => m.processLine_of_eqOrReturn hline)
  exact loop_congr hlines interrupted s io

/-- **Line endings make no difference.** An input leads to the same run with a carriage return in
front of every newline. If its last line has no newline, it leads to the same run with one. -/
theorem loop_lineEndings (m : Machine) (x : Bytes) (interrupted : Bool) (s : Session)
    (io : Streams) :
    m.loop interrupted (inputEvents (withReturns 0x0A 0x0D x)) s io =
        m.loop interrupted (inputEvents x) s io ∧
      (x ≠ [] → x.getLast? ≠ some 0x0A →
        m.loop interrupted (inputEvents (x ++ [0x0A])) s io =
          m.loop interrupted (inputEvents x) s io) := by
  constructor
  · exact m.loop_of_eqOrReturn (cutLines_withReturns (by decide) x) interrupted s io
  · intro hempty hlast
    exact (m.loop_of_eqOrReturn (cutLines_concat hempty hlast) interrupted s io).symm

/-- A line that ends in two carriage returns, a comment, a refused line, and a last line that ends
inside a character. -/
theorem loop_lineEndings_mixed :
    let m : Machine := { registry := Registry.builtins.addProbes [⟨"a".toList, 1, none⟩] }
    let s : Session := { processId := "7".toList, programName := "sh".toList }
    let x : Bytes := Utf8.encode "a $\r\r\n# b\r\n&&\r\na ".toList ++ [0xE2, 0x82]
    let run := m.loop false (inputEvents x) s {}
    let returned := m.loop false (inputEvents (withReturns 0x0A 0x0D x)) s {}
    let ended := m.loop false (inputEvents (x ++ [0x0A])) s {}
    x ≠ [] ∧ x.getLast? ≠ some 0x0A ∧ returned = run ∧ ended = run ∧
      output run.effects = Utf8.encode "a <$>\na <\uFFFD>\n".toList ∧
      errorOutput run.effects =
        Utf8.encode "sh: 2: Syntax error near unexpected token '&&'\n".toList := by
  intro m s x run returned ended
  have hempty : x ≠ [] := by decide
  have hlast : x.getLast? ≠ some 0x0A := by decide +kernel
  obtain ⟨hreturned, hended⟩ := m.loop_lineEndings x false s {}
  exact ⟨hempty, hlast, hreturned, hended hempty hlast, by decide +kernel, by decide +kernel⟩

end Machine

end LineShell
