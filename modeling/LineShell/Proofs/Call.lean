import LineShell.Interpreter.Line
import LineShell.Proofs.Chain
import LineShell.Proofs.Spacing

/-!
# Calls

A call is what is run of a link: its separator and its words. The blanks in a link are read
by nothing.

* `Call`, `calls`: the calls of a line.
* `exists_splitAfter_append_blank`: no operator reaches over a blank, so the last link in front
  of a blank goes on behind it.
* `callsAfter_cutByBlanks`: the calls of a line are a matter of its words.
* `Machine.runChain_congr`: chains with the same calls run alike.
-/

namespace LineShell

structure Call where
  separator : Separator
  argv : List Text
deriving DecidableEq, Repr

def Link.call (link : Link) : Call := ⟨link.separator, words link.text⟩

/-- The calls of a line whose first call has the given separator. -/
def callsAfter (separator : Separator) (line : Text) : List Call :=
  (splitAfter separator line).map Link.call

def calls (line : Text) : List Call := callsAfter .first line

/-! ## Splitting at blanks -/

theorem ofChar?_eq_none_of_isBlank {c : Char} (hc : isBlank c = true) : Mark.ofChar? c = none := by
  cases hmark : Mark.ofChar? c with
  | none => rfl
  | some mark =>
    obtain rfl := Mark.ofChar?_eq_some_iff.mp hmark
    cases mark <;> exact absurd hc (by decide)

theorem exists_splitAfter_append_blank (separator : Separator) (a b : Text) {c : Char}
    (hc : isBlank c = true) :
    ∃ closed last, splitAfter separator a = closed ++ [last] ∧
      splitAfter separator (a ++ c :: b) =
        closed ++ (last.text ++ [c]).foldr prependChar (splitAfter last.separator b) := by
  have hmark := ofChar?_eq_none_of_isBlank hc
  induction a using line_induction generalizing separator with
  | nil => exact ⟨[], ⟨separator, []⟩, rfl, splitAfter_cons separator b hmark⟩
  | operator next rest hnext ih =>
    obtain ⟨closed, last, hsplit, hmore⟩ := ih next
    refine ⟨⟨separator, []⟩ :: closed, last, ?_, ?_⟩
    · rw [splitAfter_separator separator hnext, hsplit, List.cons_append]
    · rw [List.append_assoc, splitAfter_separator separator hnext, hmore, List.cons_append]
  | literal d rest hd ih =>
    obtain ⟨closed, last, hsplit, hmore⟩ := ih separator
    -- A lone mark at the end stays alone, because a blank follows.
    obtain ⟨-, hampersand, hbar⟩ := Mark.ofChar?_eq_none_iff.mp hmark
    have hstep := splitAfter_literal separator (hd.append hampersand hbar b)
    rw [splitAfter_literal separator hd, hsplit, List.cons_append, hstep, hmore]
    cases closed with
    | nil => exact ⟨[], { last with text := d :: last.text }, rfl, rfl⟩
    | cons first closed =>
      exact ⟨{ first with text := d :: first.text } :: closed, last, rfl, rfl⟩

/-! ## Calls and words -/

/-- Put words in front of the words of the first call. -/
def prependWords (ws : List Text) : List Call → List Call
  | [] => []
  | call :: later => { call with argv := ws ++ call.argv } :: later

/-- The calls of two texts with a blank between them: the last call of the first text goes on
with the second. -/
def joinCalls (left right : Separator → List Call) : Separator → List Call := fun separator =>
  match (left separator).getLast? with
  | none => []
  | some last => (left separator).dropLast ++ prependWords last.argv (right last.separator)

theorem joinCalls_of_concat {left : Separator → List Call} {separator : Separator}
    {closed : List Call} {last : Call} (h : left separator = closed ++ [last])
    (right : Separator → List Call) :
    joinCalls left right separator = closed ++ prependWords last.argv (right last.separator) := by
  rw [joinCalls, h, List.getLast?_concat, List.dropLast_concat]

theorem prependWords_nil (chain : List Call) : prependWords [] chain = chain := by
  cases chain with
  | nil => rfl
  | cons call later => rfl

/-- A blank between two texts keeps their words apart in the call that goes over it. -/
theorem map_call_foldr_prependChar (a b : Text) (separator : Separator) {c : Char}
    (hc : isBlank c = true) :
    ((a ++ [c]).foldr prependChar (splitAfter separator b)).map Link.call =
      prependWords (words a) (callsAfter separator b) := by
  obtain ⟨text, later, hsplit, -⟩ := splitAfter_eq_cons separator b
  have hwords : words ((a ++ [c]) ++ text) = words a ++ words text := by
    rw [List.append_assoc]
    exact words_append_blank a text hc
  rw [callsAfter, hsplit, foldr_prependChar, List.map_cons, List.map_cons, prependWords,
    Link.call, hwords]
  rfl

theorem callsAfter_cutByBlanks :
    CutByBlanks (fun text separator => callsAfter separator text) joinCalls where
  blank a b c hc := by
    funext separator
    obtain ⟨closed, last, hsplit, hmore⟩ := exists_splitAfter_append_blank separator a b hc
    have hleft : callsAfter separator a = closed.map Link.call ++ [last.call] := by
      rw [callsAfter, hsplit, List.map_append, List.map_singleton]
    rw [joinCalls_of_concat hleft, callsAfter, hmore, List.map_append,
      map_call_foldr_prependChar last.text b last.separator hc]
    rfl
  nil_join right := by
    funext separator
    have hnil : callsAfter separator [] = [] ++ [⟨separator, []⟩] := by
      rw [callsAfter, splitAfter, List.map_singleton, Link.call, words_nil, List.nil_append]
    rw [joinCalls_of_concat hnil, List.nil_append, prependWords_nil]
  join_nil left := by
    funext separator
    cases hlast : (left separator).getLast? with
    | none =>
      rw [joinCalls, hlast]
      exact (List.getLast?_eq_none_iff.mp hlast).symm
    | some last =>
      obtain ⟨closed, hclosed⟩ := List.getLast?_eq_some_iff.mp hlast
      rw [joinCalls_of_concat hclosed, hclosed, callsAfter, splitAfter, List.map_singleton,
        Link.call, words_nil, prependWords, List.append_nil]

theorem calls_eq_of_words_eq {a b : Text} (h : words a = words b) : calls a = calls b :=
  congrFun (callsAfter_cutByBlanks.eq_of_words_eq h) .first

/-! ## Running -/

namespace Machine

theorem runLink_congr (m : Machine) {link other : Link} (h : link.call = other.call) :
    m.runLink link = m.runLink other := by
  have hwords : words link.text = words other.text := congrArg Call.argv h
  funext s io
  rw [runLink, runLink, hwords]

/-- A chain runs by its calls alone. -/
theorem runChain_congr (m : Machine) {chain other : List Link}
    (h : chain.map Link.call = other.map Link.call) (s : Session) (io : Streams) :
    m.runChain chain s io = m.runChain other s io := by
  induction chain generalizing other s io with
  | nil =>
    rw [List.map_nil] at h
    rw [List.map_eq_nil_iff.mp h.symm]
  | cons link later ih =>
    obtain ⟨link', later', rfl, hlink, hlater⟩ := List.map_eq_cons_iff.mp h.symm
    have hseparator : link'.separator = link.separator := congrArg Call.separator hlink
    have hrest : m.runChain later = m.runChain later' := by
      funext s io
      exact ih hlater.symm s io
    rw [runChain, runChain, hseparator, m.runLink_congr hlink, hrest]

end Machine

end LineShell
