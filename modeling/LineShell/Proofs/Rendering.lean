import LineShell.Proofs.Call
import LineShell.Proofs.Comment
import LineShell.Proofs.Expansion

/-!
# Rendering

A chain of calls can be written down as a line, if its words stand for themselves. What reads
lines then reads the chain back: no comment is found in it, no operator is refused, no reference
is replaced, and the links have the words that were written.

* `PlainWord`, `Call.Plain`, `Renderable`: the chains that can be written down.
* `render`: words with single spaces between them, and operators with a space on either side.
* `callsAfter_append_render`: reading goes from one rendered call to the next.
* `calls_render`: the chain that was rendered comes back.
-/

namespace LineShell

/-- A word that stands for itself: nothing in it is a mark or begins a reference, and it does
not begin with a comment. -/
structure PlainWord (word : Text) : Prop extends IsWord word where
  unmarked : Unmarked word
  noReference : '$' ∉ word
  noComment : word.head? ≠ some '#'

instance (word : Text) : Decidable (PlainWord word) :=
  decidable_of_iff
    ((word ≠ [] ∧ Unbroken word) ∧ Unmarked word ∧ '$' ∉ word ∧ word.head? ≠ some '#')
    ⟨fun h => ⟨⟨h.1.1, h.1.2⟩, h.2.1, h.2.2.1, h.2.2.2⟩,
      fun h => ⟨⟨h.nonempty, h.unbroken⟩, h.unmarked, h.noReference, h.noComment⟩⟩

/-- A call that can be written down. -/
structure Call.Plain (call : Call) : Prop where
  nonempty : call.argv ≠ []
  plain : ∀ word ∈ call.argv, PlainWord word

instance (call : Call) : Decidable call.Plain :=
  decidable_of_iff (call.argv ≠ [] ∧ ∀ word ∈ call.argv, PlainWord word)
    ⟨fun h => ⟨h.1, h.2⟩, fun h => ⟨h.nonempty, h.plain⟩⟩

/-- A chain that can be written down: every call of it can, and all but the first are joined to
the one before them by an operator. -/
def Renderable : List Call → Prop
  | [] => False
  | first :: later =>
    (first.separator = .first ∧ first.Plain) ∧
      ∀ call ∈ later, call.separator ≠ .first ∧ call.Plain

instance : DecidablePred Renderable
  | [] => inferInstanceAs (Decidable False)
  | _ :: _ => inferInstanceAs (Decidable (_ ∧ _))

/-- The operator with a space on either side. -/
def Separator.spaced : Separator → Text
  | first => []
  | separator => ' ' :: (separator.text ++ [' '])

/-- The line of a chain. -/
def render (chain : List Call) : Text :=
  chain.flatMap (fun call => call.separator.spaced ++ unwords call.argv)

theorem Separator.spaced_append {separator : Separator} (h : separator ≠ first) (text : Text) :
    separator.spaced ++ text = ' ' :: (separator.text ++ ' ' :: text) := by
  cases separator with
  | first => exact absurd rfl h
  | sequential => rfl
  | and => rfl
  | or => rfl

theorem render_cons_of_ne {call : Call} (h : call.separator ≠ .first) (later : List Call) :
    render (call :: later) =
      ' ' :: (call.separator.text ++ ' ' :: (unwords call.argv ++ render later)) := by
  rw [render, List.flatMap_cons, List.append_assoc, Separator.spaced_append h]
  rfl

theorem render_cons_first {call : Call} (h : call.separator = .first) (later : List Call) :
    render (call :: later) = unwords call.argv ++ render later := by
  rw [render, List.flatMap_cons, h]
  rfl

/-! ## Splitting -/

theorem unmarked_of_words {text : Text} (h : ∀ word ∈ words text, Unmarked word) :
    Unmarked text := by
  rw [unmarked_iff]
  intro c hc
  cases hblank : isBlank c with
  | true => exact ofChar?_eq_none_of_isBlank hblank
  | false =>
    obtain ⟨word, hword, hc⟩ := exists_word_of_mem hc hblank
    exact unmarked_iff.mp (h word hword) c hc

theorem Unmarked.cons_space {text : Text} (h : Unmarked text) : Unmarked (' ' :: text) :=
  unmarked_cons.mpr ⟨rfl, h⟩

namespace Call.Plain

variable {call : Call}

theorem words_unwords (h : call.Plain) : words (unwords call.argv) = call.argv :=
  LineShell.words_unwords fun word hword => (h.plain word hword).toIsWord

theorem unmarked_unwords (h : call.Plain) : Unmarked (unwords call.argv) := by
  apply unmarked_of_words
  rw [h.words_unwords]
  exact fun word hword => (h.plain word hword).unmarked

end Call.Plain

/-- A text without marks and the rendered calls behind it are cut where they were joined. -/
theorem callsAfter_append_render (separator : Separator) {text : Text} (htext : Unmarked text)
    {later : List Call} (hlater : ∀ call ∈ later, call.separator ≠ .first ∧ call.Plain) :
    callsAfter separator (text ++ render later) = ⟨separator, words text⟩ :: later := by
  induction later generalizing separator text with
  | nil =>
    have hchain : LiteralChain [⟨separator, text⟩] :=
      literalChain_of_unmarked (List.forall_mem_singleton.mpr htext)
    have hnone : ∀ link ∈ ([] : List Link), link.separator ≠ .first := by simp
    exact congrArg (List.map Link.call) (splitAfter_joinChain separator hchain hnone)
  | cons call later ih =>
    obtain ⟨⟨hseparator, hcall⟩, hlater⟩ := List.forall_mem_cons.mp hlater
    have hspace : Unmarked (text ++ [' ']) := by
      rw [unmarked_iff]
      intro c hc
      rcases List.mem_append.mp hc with hc | hc
      · exact unmarked_iff.mp htext c hc
      · rw [List.mem_singleton.mp hc]
        rfl
    have hline : text ++ render (call :: later) =
        (text ++ [' ']) ++ (call.separator.text ++
          ((' ' :: unwords call.argv) ++ render later)) := by
      rw [render_cons_of_ne hseparator, List.append_assoc]
      rfl
    have hrest := ih call.separator hcall.unmarked_unwords.cons_space hlater
    rw [words_cons_blank _ rfl, hcall.words_unwords] at hrest
    rw [hline, callsAfter, splitAfter_append separator (hspace.literalBefore _),
      splitAfter_separator separator hseparator, foldr_prependChar, List.map_cons, Link.call,
      List.append_nil, words_concat_blank text rfl]
    exact congrArg _ hrest

/-! ## Comments -/

/-- A `#` inside of a word begins no comment. -/
theorem PlainWord.uncommented {word : Text} (h : PlainWord word) : Uncommented word := by
  have hopens : ∀ c ∈ word, opensComment c = false := by
    intro c hc
    cases hopen : opensComment c with
    | false => rfl
    | true =>
      simp only [opensComment, Bool.or_eq_true, beq_iff_eq] at hopen
      rcases hopen with (rfl | rfl) | rfl
      · cases h.unbroken _ hc
      · cases h.unbroken _ hc
      · exact absurd hc h.unmarked.1
  cases word with
  | nil => rfl
  | cons c rest =>
    have hc : c ≠ '#' := by
      rintro rfl
      exact h.noComment rfl
    obtain ⟨hopen, hrest⟩ := List.forall_mem_cons.mp hopens
    rw [Uncommented, beforeComment_cons hc, hopen, beforeComment_false_eq_self hrest]

theorem uncommented_unwords {ws : List Text} (h : ∀ word ∈ ws, PlainWord word) :
    Uncommented (unwords ws) := by
  induction ws with
  | nil => rfl
  | cons word later ih =>
    obtain ⟨hword, hlater⟩ := List.forall_mem_cons.mp h
    cases later with
    | nil =>
      rw [unwords_singleton]
      exact hword.uncommented
    | cons next later =>
      rw [unwords_cons_cons]
      exact hword.uncommented.append_cons rfl (ih hlater)

theorem Separator.uncommented_text (separator : Separator) : Uncommented separator.text := by
  cases separator <;> rfl

theorem Uncommented.append_render {text : Text} (htext : Uncommented text) {later : List Call}
    (hlater : ∀ call ∈ later, call.separator ≠ .first ∧ call.Plain) :
    Uncommented (text ++ render later) := by
  induction later generalizing text with
  | nil =>
    rw [render, List.flatMap_nil, List.append_nil]
    exact htext
  | cons call later ih =>
    obtain ⟨⟨hseparator, hcall⟩, hlater⟩ := List.forall_mem_cons.mp hlater
    have hwords : Uncommented (unwords call.argv) := uncommented_unwords hcall.plain
    rw [render_cons_of_ne hseparator]
    exact htext.append_cons rfl (call.separator.uncommented_text.append_cons rfl (ih hwords hlater))

/-! ## References -/

theorem Call.Plain.noReference {call : Call} (h : call.Plain) : '$' ∉ unwords call.argv := by
  intro hmem
  rcases mem_unwords hmem with hspace | ⟨word, hword, hmem⟩
  · cases hspace
  · exact (h.plain word hword).noReference hmem

theorem dollar_not_mem_render {chain : List Call} (h : ∀ call ∈ chain, call.Plain) :
    '$' ∉ render chain := by
  intro hmem
  obtain ⟨call, hcall, hmem⟩ := List.mem_flatMap.mp hmem
  rcases List.mem_append.mp hmem with hmem | hmem
  · have hspaced : '$' ∉ call.separator.spaced := by cases call.separator <;> decide
    exact hspaced hmem
  · exact (h call hcall).noReference hmem

/-! ## Chains -/

theorem Renderable.plain {chain : List Call} (h : Renderable chain) :
    ∀ call ∈ chain, call.Plain := by
  cases chain with
  | nil => exact absurd h id
  | cons first later =>
    exact List.forall_mem_cons.mpr ⟨h.1.2, fun call hcall => (h.2 call hcall).2⟩

/-- A line whose calls can be written down has its operators in place. -/
theorem syntaxError?_of_calls {line : Text} (h : ∀ call ∈ calls line, call.Plain) :
    syntaxError? line = none := by
  have hlink : ∀ link ∈ splitChain line, link.call.Plain := by
    intro link hlink
    exact h link.call (List.mem_map_of_mem hlink)
  rw [wellFormed_splitChain, wellFormed_iff]
  constructor
  · intro link hmem
    exact (hlink link (List.dropLast_subset _ hmem)).nonempty
  · intro link hmem
    exact unmarked_of_words fun word hword => ((hlink link hmem).plain word hword).unmarked

theorem Renderable.calls_eq {chain : List Call} (h : Renderable chain) :
    calls (render chain) = chain := by
  cases chain with
  | nil => exact absurd h id
  | cons first later =>
    obtain ⟨⟨hseparator, hfirst⟩, hlater⟩ := h
    rw [render_cons_first hseparator, calls,
      callsAfter_append_render .first hfirst.unmarked_unwords hlater, hfirst.words_unwords,
      ← hseparator]

theorem Renderable.uncommented {chain : List Call} (h : Renderable chain) :
    Uncommented (render chain) := by
  cases chain with
  | nil => exact absurd h id
  | cons first later =>
    obtain ⟨⟨hseparator, hfirst⟩, hlater⟩ := h
    rw [render_cons_first hseparator]
    exact (uncommented_unwords hfirst.plain).append_render hlater

/-- **What is rendered is read back.** The line of a chain is left whole by the search for a
comment, accepted by the check and unchanged by the expansion, and its links have the separators
and the words of the chain. -/
theorem calls_render {chain : List Call} (h : Renderable chain) (s : Session) :
    let line := render chain
    stripComment line = some line ∧ syntaxError? line = none ∧ s.expand line = line ∧
      (splitChain line).map Link.call = chain := by
  intro line
  have hcalls : calls line = chain := h.calls_eq
  refine ⟨h.uncommented.stripComment_eq, ?_, ?_, hcalls⟩
  · apply syntaxError?_of_calls
    rw [hcalls]
    exact h.plain
  · exact substitute_eq_self s.valueOf (dollar_not_mem_render h.plain)

/-- A `#` inside of words, characters of two, three and four bytes, and all three operators. -/
theorem calls_render_mixed :
    let chain : List Call :=
      [⟨.first, ["a#b".toList, "é=1".toList]⟩, ⟨.and, ["日本".toList]⟩,
        ⟨.or, ["x".toList, "-##".toList, "𝄞".toList]⟩, ⟨.sequential, ["!".toList]⟩]
    let s : Session := { processId := "7".toList, programName := "sh".toList }
    let line := "a#b é=1 && 日本 || x -## 𝄞 ; !".toList
    Renderable chain ∧ render chain = line ∧
      stripComment line = some line ∧ syntaxError? line = none ∧ s.expand line = line ∧
      (splitChain line).map Link.call = chain := by
  intro chain s line
  have hchain : Renderable chain := by decide
  have hline : render chain = line := by decide
  exact ⟨hchain, hline, hline ▸ calls_render hchain s⟩

end LineShell
