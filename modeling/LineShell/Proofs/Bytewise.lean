import LineShell.Line.Bytewise
import LineShell.Proofs.Boundary
import LineShell.Proofs.Chain
import LineShell.Proofs.Comment
import LineShell.Proofs.LossyDecoding
import LineShell.Proofs.Operator
import LineShell.Proofs.Substitution

/-!
# Scanning bytes is scanning characters

The marks, the separators and the blanks are characters of ASCII, and no byte of any other
character is one of these. So a scanner that goes from byte to byte stops where one that goes from
character to character stops, and these places are boundaries. Positions are given by the text in
front of them, so that each induction moves characters of the line over to the part that has been
passed.

* `charAt?_encode`, `charAt?_beyond`: what is read at the first byte of a text, and at each byte of
  a character beyond ASCII.
* `misplacedFrom_encode`: the check of the bytes from a position on is that of the text from there
  on.
* `linksFrom_encode`: each link that is found by its bytes is the slice of a link of the line.
* `findComment_cases`: a comment is found where the text before it ends.
* `keptFrom_encode`: the slices around the references, filled with values, make up the text in which
  the references are replaced.
* `scan_exact`: what is cut out can be cut out, and is what the scanners of characters return.
-/

namespace LineShell.Bytewise

/-! ## Bytes as characters -/

theorem toNat_latin1 (byte : UInt8) : (latin1 byte).toNat = byte.toNat :=
  Utf8.val_ofNat (Or.inl (Nat.lt_trans byte.toNat_lt (by decide)))

theorem toNat_le_of_mark {c : Char} {mark : Mark} (h : Mark.ofChar? c = some mark) :
    c.toNat ≤ 0x7F := by
  obtain rfl := Mark.ofChar?_eq_some_iff.mp h
  cases mark <;> decide

theorem toNat_le_of_isBlank {c : Char} (h : isBlank c = true) : c.toNat ≤ 0x7F := by
  simp only [isBlank, Bool.or_eq_true, beq_iff_eq] at h
  rcases h with (((rfl | rfl) | rfl) | rfl) | rfl <;> decide

/-- What is beyond ASCII is neither a mark nor a blank. -/
theorem plain_of_beyond {c : Char} (h : 0x7F < c.toNat) :
    Mark.ofChar? c = none ∧ isBlank c = false := by
  constructor
  · refine Option.eq_none_iff_forall_ne_some.mpr fun mark hmark => ?_
    exact absurd (toNat_le_of_mark hmark) (Nat.not_le.mpr h)
  · refine Bool.eq_false_iff.mpr fun hblank => ?_
    exact absurd (toNat_le_of_isBlank hblank) (Nat.not_le.mpr h)

theorem charAt?_of_le {bytes : Bytes} {position : Nat} (h : bytes.length ≤ position) :
    charAt? bytes position = none := by
  rw [charAt?, List.getElem?_eq_none h, Option.map_none]

section

variable {c : Char} (before : Text)

theorem charAt?_encode (hc : c.toNat ≤ 0x7F) (text : Text) :
    charAt? (Utf8.encode (before ++ text)) before.byteSize = some c ↔ text.head? = some c := by
  have hbyte := Utf8.getElem?_encode_append before text 0
  rw [Nat.add_zero, ← List.head?_eq_getElem?] at hbyte
  rw [charAt?, hbyte, ← Utf8.head?_encode hc, Option.map_eq_some_iff]
  have hsmall : c.toNat < UInt8.size := Nat.lt_of_le_of_lt hc (by decide)
  constructor
  · rintro ⟨byte, hhead, hlatin1⟩
    rw [hhead, ← hlatin1, toNat_latin1, UInt8.ofNat_toNat]
  · intro hhead
    refine ⟨_, hhead, ?_⟩
    rw [← Char.toNat_inj, toNat_latin1, UInt8.toNat_ofNat_of_lt' hsmall]

theorem charAt?_encode_succ {d : Char} (hc : c.toNat ≤ 0x7F) (hd : d.toNat ≤ 0x7F)
    (rest : Text) :
    charAt? (Utf8.encode (before ++ c :: rest)) (before.byteSize + 1) = some d ↔
      rest.head? = some d := by
  have hnext := charAt?_encode (before ++ [c]) hd rest
  rwa [List.append_assoc, Text.byteSize_concat, Utf8.utf8Size_of_ascii hc] at hnext

/-- Each byte of a character beyond ASCII is read as a character beyond ASCII. -/
theorem charAt?_beyond (hc : 0x7F < c.toNat) (rest : Text) {k : Nat} (hk : k < c.utf8Size) :
    ∃ d, charAt? (Utf8.encode (before ++ c :: rest)) (before.byteSize + k) = some d ∧
      0x7F < d.toNat := by
  have hlength : k < (String.utf8EncodeChar c).length := by
    rwa [String.length_utf8EncodeChar]
  have hbeyond := Utf8.beyondAscii_of_mem hc _ (List.getElem_mem hlength)
  rw [charAt?, Utf8.getElem?_encode_cons before rest hk, List.getElem?_eq_getElem hlength]
  refine ⟨_, rfl, ?_⟩
  rw [toNat_latin1]
  exact UInt8.le_iff_toNat_le.mp hbeyond

end

/-! ## Operators -/

section

variable {bytes : Bytes} {position : Nat} {d : Char}

theorem operatorAt?_of_beyond (hd : charAt? bytes position = some d) (h : 0x7F < d.toNat) :
    operatorAt? bytes position = none := by
  rw [operatorAt?, hd, Option.bind_some, (plain_of_beyond h).1, Option.map_none]

theorem misplacedFrom_length (hasCommand : Bool) :
    misplacedFrom bytes hasCommand bytes.length = none := by
  rw [misplacedFrom, dif_neg (Nat.lt_irrefl _)]

theorem misplacedFrom_plain (hasCommand : Bool) (hd : charAt? bytes position = some d)
    (h : operatorAt? bytes position = none) :
    misplacedFrom bytes hasCommand position =
      misplacedFrom bytes (hasCommand || !isBlank d) (position + 1) := by
  obtain ⟨byte, hbyte, rfl⟩ := Option.map_eq_some_iff.mp hd
  obtain ⟨hlt, rfl⟩ := List.getElem?_eq_some_iff.mp hbyte
  rw [misplacedFrom, dif_pos hlt, h]

theorem misplacedFrom_found (hasCommand : Bool) {op : Operator}
    (h : operatorAt? bytes position = some op) :
    misplacedFrom bytes hasCommand position =
      (op.refused? hasCommand).or (misplacedFrom bytes false (position + op.text.length)) := by
  have hlt : position < bytes.length := by
    refine Nat.lt_of_not_le fun hle => ?_
    rw [operatorAt?, charAt?_of_le hle] at h
    cases h
  rw [misplacedFrom, dif_pos hlt, h]

theorem misplacedFrom_of_beyond (hasCommand : Bool) (hd : charAt? bytes position = some d)
    (h : 0x7F < d.toNat) :
    misplacedFrom bytes hasCommand position = misplacedFrom bytes true (position + 1) := by
  rw [misplacedFrom_plain hasCommand hd (operatorAt?_of_beyond hd h), (plain_of_beyond h).2,
    Bool.not_false, Bool.or_true]

/-- Several bytes beyond ASCII are passed like one character of a command. -/
theorem misplacedFrom_skip (hasCommand : Bool) {n : Nat}
    (h : ∀ k < n + 1, ∃ d, charAt? bytes (position + k) = some d ∧ 0x7F < d.toNat) :
    misplacedFrom bytes hasCommand position = misplacedFrom bytes true (position + (n + 1)) := by
  induction n with
  | zero =>
    obtain ⟨d, hd, hbeyond⟩ := h 0 Nat.one_pos
    exact misplacedFrom_of_beyond hasCommand hd hbeyond
  | succ n ih =>
    obtain ⟨d, hd, hbeyond⟩ := h (n + 1) (Nat.lt_succ_self _)
    rw [ih fun k hk => h k (Nat.lt_succ_of_lt hk)]
    exact misplacedFrom_of_beyond true hd hbeyond

end

section

variable (before : Text)

theorem doubled_encode {c : Char} (hc : c.toNat ≤ 0x7F) (rest : Text) :
    ((Utf8.encode (before ++ c :: rest))[before.byteSize + 1]? ==
        (Utf8.encode (before ++ c :: rest))[before.byteSize]?) = (rest.head? == some c) := by
  have hbyte := Utf8.getElem?_encode_append before (c :: rest)
  have hfirst := hbyte 0
  rw [Nat.add_zero] at hfirst
  rw [hbyte 1, hfirst, Utf8.encode_cons, Utf8.encodeChar_of_ascii hc, Bool.eq_iff_iff,
    beq_iff_eq, beq_iff_eq, ← Utf8.head?_encode hc, List.head?_eq_getElem?]
  rfl

/-- The operator at the first byte of a text is the one that the text begins with. -/
theorem operatorAt?_encode (text : Text) :
    operatorAt? (Utf8.encode (before ++ text)) before.byteSize = Operator.read? text := by
  cases text with
  | nil =>
    rw [List.append_nil, operatorAt?, charAt?_of_le (Utf8.length_encode before).le]
    rfl
  | cons c rest =>
    by_cases hc : c.toNat ≤ 0x7F
    · rw [operatorAt?, (charAt?_encode before hc _).mpr rfl, Option.bind_some,
        doubled_encode before hc, Operator.read?]
    · have hbeyond : 0x7F < c.toNat := Nat.lt_of_not_le hc
      obtain ⟨d, hd, hlatin1⟩ := charAt?_beyond before hbeyond rest c.utf8Size_pos
      rw [Nat.add_zero] at hd
      rw [operatorAt?_of_beyond hd hlatin1, Operator.read?, (plain_of_beyond hbeyond).1,
        Option.map_none]

theorem byteSize_operator (op : Operator) : op.text.byteSize = op.text.length := by
  obtain ⟨mark, doubled⟩ := op
  cases mark <;> cases doubled <;> decide

/-- The check goes on from a position as it does from the text there. -/
theorem misplacedFrom_encode (hasCommand : Bool) (text : Text) :
    misplacedFrom (Utf8.encode (before ++ text)) hasCommand before.byteSize =
      LineShell.misplacedFrom hasCommand text := by
  induction hasCommand, text using operator_induction generalizing before with
  | nil hasCommand =>
    rw [List.append_nil, ← Utf8.length_encode]
    exact misplacedFrom_length hasCommand
  | plain hasCommand c rest hc ih =>
    have hrest := ih (before ++ [c])
    rw [List.append_assoc, List.singleton_append, Text.byteSize_concat] at hrest
    rw [misplacedFrom_cons hasCommand rest hc, ← hrest]
    -- A character of several bytes takes as many steps, and each of them finds text of a command.
    by_cases hascii : c.toNat ≤ 0x7F
    · have hnone := operatorAt?_encode before (c :: rest)
      rw [Operator.read?, hc, Option.map_none] at hnone
      rw [misplacedFrom_plain hasCommand ((charAt?_encode before hascii _).mpr rfl) hnone,
        Utf8.utf8Size_of_ascii hascii]
    · have hbeyond : 0x7F < c.toNat := Nat.lt_of_not_le hascii
      obtain ⟨n, hn⟩ := Nat.exists_eq_add_one.mpr c.utf8Size_pos
      rw [(plain_of_beyond hbeyond).2, Bool.not_false, Bool.or_true, hn]
      exact misplacedFrom_skip hasCommand fun k hk =>
        charAt?_beyond before hbeyond rest (hn ▸ hk)
  | operator hasCommand op tail hread ih =>
    have htail := ih (before ++ op.text)
    rw [List.append_assoc, Text.byteSize_append, byteSize_operator] at htail
    rw [misplacedFrom_operator hasCommand hread, ← htail]
    exact misplacedFrom_found hasCommand ((operatorAt?_encode before _).trans hread)

end

/-! ## Links -/

theorem separatorOf?_eq_none {first second : Option Char} (hsemicolon : first ≠ some ';')
    (hand : first = some '&' → second ≠ some '&') (hor : first = some '|' → second ≠ some '|') :
    separatorOf? first second = none := by
  unfold separatorOf?
  split
  · exact absurd rfl (hand rfl)
  · exact absurd rfl (hor rfl)
  · exact absurd rfl hsemicolon
  · rfl

theorem separatorAt?_of_beyond {bytes : Bytes} {position : Nat} {d : Char}
    (hd : charAt? bytes position = some d) (h : 0x7F < d.toNat) :
    separatorAt? bytes position = none := by
  obtain ⟨hsemicolon, hampersand, hbar⟩ := Mark.ofChar?_eq_none_iff.mp (plain_of_beyond h).1
  rw [separatorAt?, hd]
  refine separatorOf?_eq_none (fun h => hsemicolon (Option.some.inj h)) ?_ ?_
  · exact fun h => absurd (Option.some.inj h) hampersand
  · exact fun h => absurd (Option.some.inj h) hbar

section

variable (before : Text)

/-- No byte of a character of a link begins a separator. -/
theorem separatorAt?_literal {c : Char} {rest : Text} (h : Literal c rest) {k : Nat}
    (hk : k < c.utf8Size) :
    separatorAt? (Utf8.encode (before ++ c :: rest)) (before.byteSize + k) = none := by
  by_cases hc : c.toNat ≤ 0x7F
  · obtain ⟨hsemicolon, hand, hor⟩ := h
    rw [Utf8.utf8Size_of_ascii hc, Nat.lt_one_iff] at hk
    rw [hk, Nat.add_zero, separatorAt?, (charAt?_encode before hc _).mpr rfl]
    refine separatorOf?_eq_none (fun h => hsemicolon (Option.some.inj h)) ?_ ?_
    · intro h
      rw [Ne, charAt?_encode_succ before hc (by decide)]
      exact hand (Option.some.inj h)
    · intro h
      rw [Ne, charAt?_encode_succ before hc (by decide)]
      exact hor (Option.some.inj h)
  · obtain ⟨d, hd, hbeyond⟩ := charAt?_beyond before (Nat.lt_of_not_le hc) rest hk
    exact separatorAt?_of_beyond hd hbeyond

theorem separatorAt?_separator {next : Separator} (h : next ≠ .first) (rest : Text) :
    separatorAt? (Utf8.encode (before ++ (next.text ++ rest))) before.byteSize =
      some (next, next.text.byteSize) := by
  have hfirst : ∀ mark : Mark, ∀ tail,
      charAt? (Utf8.encode (before ++ mark.char :: tail)) before.byteSize = some mark.char :=
    fun mark tail => (charAt?_encode before (toNat_le_of_mark mark.ofChar?_char) _).mpr rfl
  have hsecond : ∀ mark : Mark, ∀ tail,
      charAt? (Utf8.encode (before ++ mark.char :: mark.char :: tail)) (before.byteSize + 1) =
        some mark.char := fun mark tail =>
    have hmark := toNat_le_of_mark mark.ofChar?_char
    (charAt?_encode_succ before hmark hmark _).mpr rfl
  rw [separatorAt?]
  -- What stands behind a `;` is not looked at.
  cases next with
  | first => exact absurd rfl h
  | sequential => exact congrArg (separatorOf? · _) (hfirst .semicolon rest)
  | and => exact congrArg₂ separatorOf? (hfirst .ampersand _) (hsecond .ampersand rest)
  | or => exact congrArg₂ separatorOf? (hfirst .bar _) (hsecond .bar rest)

end

section

variable {bytes : Bytes} {start position : Nat} (separator : Separator)

theorem linksFrom_length : linksFrom bytes separator start bytes.length =
    [(separator, ⟨start, bytes.length⟩)] := by
  rw [linksFrom, if_neg (Nat.lt_irrefl _)]

theorem linksFrom_none (hlt : position < bytes.length)
    (h : separatorAt? bytes position = none) :
    linksFrom bytes separator start position = linksFrom bytes separator start (position + 1) := by
  rw [linksFrom, if_pos hlt]
  split
  · rfl
  · rename_i hsome
    rw [h] at hsome
    cases hsome

theorem linksFrom_some {next : Separator} {width : Nat}
    (h : separatorAt? bytes position = some (next, width)) :
    linksFrom bytes separator start position =
      (separator, ⟨start, position⟩) ::
        linksFrom bytes next (position + width) (position + width) := by
  have hlt : position < bytes.length := by
    refine Nat.lt_of_not_le fun hle => ?_
    rw [separatorAt?, charAt?_of_le hle] at h
    cases h
  rw [linksFrom, if_pos hlt]
  split
  · rename_i hnone
    rw [h] at hnone
    cases hnone
  · rename_i hsome
    rw [h] at hsome
    cases hsome
    rfl

theorem linksFrom_skip {n : Nat} (hle : position + n ≤ bytes.length)
    (h : ∀ k < n, separatorAt? bytes (position + k) = none) :
    linksFrom bytes separator start position = linksFrom bytes separator start (position + n) := by
  induction n with
  | zero => rfl
  | succ n ih =>
    rw [ih (Nat.le_of_lt hle) fun k hk => h k (Nat.lt_succ_of_lt hk)]
    exact linksFrom_none separator hle (h n (Nat.lt_succ_self n))

end

/-- The slice is that of the link in the line. -/
def Locates (line : Text) (found : Separator × Slice) (link : Link) : Prop :=
  found.1 = link.separator ∧ found.2.Holds line link.text

/-- What has been passed of a link is put in front of its text. -/
theorem linksFrom_encode {line rest : Text} (separator : Separator) (before part : Text)
    (hline : line = before ++ part ++ rest) :
    List.Forall₂ (Locates line)
      (linksFrom (Utf8.encode line) separator before.byteSize (Text.byteSize (before ++ part)))
      (part.foldr prependChar (splitAfter separator rest)) := by
  induction rest using line_induction generalizing separator before part with
  | nil =>
    have hlength : Text.byteSize (before ++ part) = (Utf8.encode line).length := by
      rw [Utf8.length_encode, hline, List.append_nil]
    rw [hlength, linksFrom_length, splitAfter, foldr_prependChar, List.append_nil, ← hlength,
      Text.byteSize_append]
    exact .cons ⟨rfl, before, [], by rw [hline, List.append_assoc], rfl⟩ .nil
  | operator next rest hnext ih =>
    -- The next link begins behind the separator, and nothing of it has been passed yet.
    have hfound := separatorAt?_separator (before ++ part) hnext rest
    have hbehind := ih next (before ++ part ++ next.text) [] (by simp [hline])
    rw [← hline] at hfound
    rw [List.append_nil, Text.byteSize_append, List.foldr_nil] at hbehind
    rw [linksFrom_some separator hfound, splitAfter_separator separator hnext, foldr_prependChar,
      List.append_nil]
    refine .cons ⟨rfl, before, next.text ++ rest, ?_, ?_⟩ hbehind
    · rw [hline, List.append_assoc]
    · rw [Text.byteSize_append]
  | literal c rest hc ih =>
    have hpassed : ∀ k < c.utf8Size,
        separatorAt? (Utf8.encode line) (Text.byteSize (before ++ part) + k) = none := by
      intro k hk
      rw [hline]
      exact separatorAt?_literal (before ++ part) hc hk
    have hbound := Utf8.le_length_encode (before ++ part) c rest
    have hbehind := ih separator before (part ++ [c]) (by simp [hline])
    rw [← hline] at hbound
    rw [← List.append_assoc, Text.byteSize_concat, List.foldr_append] at hbehind
    rw [linksFrom_skip separator hbound hpassed, splitAfter_literal separator hc]
    exact hbehind

theorem links_encode (line : Text) :
    List.Forall₂ (Locates line) (links (Utf8.encode line)) (splitChain line) :=
  linksFrom_encode .first [] [] rfl

theorem map_fst_of_locates {line : Text} {found : List (Separator × Slice)} {chain : List Link}
    (h : List.Forall₂ (Locates line) found chain) :
    found.map Prod.fst = chain.map Link.separator := by
  induction h with
  | nil => rfl
  | cons hlink _ ih => rw [List.map_cons, List.map_cons, hlink.1, ih]

theorem holds_links (line : Text) :
    List.Forall₂ (Slice.Holds line) ((links (Utf8.encode line)).map Prod.snd)
      ((splitChain line).map Link.text) := by
  rw [List.forall₂_map_left_iff, List.forall₂_map_right_iff]
  exact (links_encode line).imp fun _ _ hlink => hlink.2

/-- Each link is cut out of the line. -/
theorem splitChain?_encode (line : Text) :
    splitChain? (Utf8.encode line) =
      some ((splitChain line).map fun link => (link.separator, Utf8.encode link.text)) := by
  rw [splitChain?, Slice.cutAll?_eq (holds_links line), map_fst_of_locates (links_encode line),
    Option.map_some, List.map_map, List.zip_map']
  rfl

/-! ## Comments -/

/-- A comment is found in front of the text that is left out. -/
theorem findCommentFrom_some (previous : Char) (position : Nat) (text : Text) :
    (findCommentFrom (some previous) position text = .nowhere ∧
        beforeComment (opensComment previous) text = text) ∨
      ∃ front back, text = front ++ back ∧
        findCommentFrom (some previous) position text = .byte (position + front.byteSize) ∧
          beforeComment (opensComment previous) text = front := by
  induction text generalizing previous position with
  | nil => exact Or.inl ⟨rfl, rfl⟩
  | cons c rest ih =>
    by_cases hbegins : c = '#' ∧ opensComment previous = true
    · obtain ⟨rfl, hopens⟩ := hbegins
      refine Or.inr ⟨[], '#' :: rest, rfl, ?_, ?_⟩
      · simp [findCommentFrom, hopens]
      · simp [beforeComment, hopens]
    · have hfind : findCommentFrom (some previous) position (c :: rest) =
          findCommentFrom (some c) (position + c.utf8Size) rest := by
        simp [findCommentFrom, hbegins]
      have hbefore : beforeComment (opensComment previous) (c :: rest) =
          c :: beforeComment (opensComment c) rest := by
        simp [beforeComment, hbegins]
      rw [hfind, hbefore]
      rcases ih c (position + c.utf8Size) with
        ⟨hnowhere, hwhole⟩ | ⟨front, back, rfl, hbyte, hfront⟩
      · exact Or.inl ⟨hnowhere, by rw [hwhole]⟩
      · refine Or.inr ⟨c :: front, back, rfl, ?_, by rw [hfront]⟩
        rw [hbyte, Text.byteSize_cons, Nat.add_assoc]

theorem findComment_cases (line : Text) :
    (findComment line = .nowhere ∧ stripComment line = some line) ∨
      (findComment line = .line ∧ stripComment line = none) ∨
      ∃ front back, line = front ++ back ∧ findComment line = .byte front.byteSize ∧
        stripComment line = some front := by
  cases line with
  | nil => exact Or.inl ⟨rfl, rfl⟩
  | cons c rest =>
    by_cases hc : c = '#'
    · subst hc
      exact Or.inr (Or.inl ⟨rfl, rfl⟩)
    · have hfind : findComment (c :: rest) = findCommentFrom (some c) c.utf8Size rest := by
        simp [findComment, findCommentFrom, hc]
      rw [hfind, stripComment_cons hc, beforeComment_cons hc]
      rcases findCommentFrom_some c c.utf8Size rest with
        ⟨hnowhere, hwhole⟩ | ⟨front, back, rfl, hbyte, hfront⟩
      · exact Or.inl ⟨hnowhere, by rw [hwhole]⟩
      · exact Or.inr (Or.inr ⟨c :: front, back, rfl, hbyte, by rw [hfront]⟩)

theorem cuts_of_findComment {line : Text} {position : Nat}
    (h : findComment line = .byte position) : Slice.Cuts line ⟨0, position⟩ := by
  rcases findComment_cases line with ⟨hfind, -⟩ | ⟨hfind, -⟩ | ⟨front, back, rfl, hfind, -⟩
  · rw [hfind] at h
    cases h
  · rw [hfind] at h
    cases h
  · rw [hfind] at h
    cases h
    exact Slice.Holds.cuts ⟨[], back, rfl, by simp⟩

theorem stripComment?_eq (line : Text) :
    stripComment? line = some ((stripComment line).map Utf8.encode) := by
  rcases findComment_cases line with
    ⟨hfind, hstrip⟩ | ⟨hfind, hstrip⟩ | ⟨front, back, hline, hfind, hstrip⟩
  · rw [stripComment?, hfind, hstrip, Option.map_some]
  · rw [stripComment?, hfind, hstrip, Option.map_none]
  · have hholds : Slice.Holds line ⟨0, front.byteSize⟩ front := ⟨[], back, hline, by simp⟩
    rw [stripComment?, hfind, hstrip, Option.map_some]
    dsimp only
    rw [hholds.cut?_eq, Option.map_some]

/-! ## References -/

variable {valueOf : Reference → Text}

theorem fill_cons (piece value : Text) (pieces : List Bytes) (values : List Text) :
    fill (Utf8.encode piece :: pieces) (value :: values) =
      Utf8.encode (piece ++ value) ++ fill pieces values := by
  rw [fill, Utf8.encode_append]

/-- What has been passed since the last reference is part of the next slice. -/
theorem keptFrom_encode {line rest : Text} {subs : List Substitution} (before part : Text)
    (hline : line = before ++ part ++ rest)
    (hsubs : subs = substitutionsFrom valueOf (Text.byteSize (before ++ part)) (pieces rest)) :
    ∃ texts, List.Forall₂ (Slice.Holds line) (keptFrom line.byteSize before.byteSize subs) texts ∧
      fill (texts.map Utf8.encode) (subs.map (·.value)) =
        Utf8.encode (part ++ substitute valueOf rest) := by
  induction rest using reference_induction generalizing before part subs with
  | nil =>
    subst hsubs
    refine ⟨[part], .cons ⟨before, [], ?_, ?_⟩ .nil, ?_⟩
    · rw [hline, List.append_assoc]
    · rw [hline, List.append_nil, Text.byteSize_append]
    · simp [fill, substitute, pieces, piecesAfter, substitutionsFrom]
  | plain c rest hc ih =>
    rw [substitutionsFrom_plain hc, ← Text.byteSize_append, List.append_assoc] at hsubs
    obtain ⟨texts, hholds, hfill⟩ := ih before (part ++ [c]) (by simp [hline]) hsubs
    refine ⟨texts, hholds, ?_⟩
    rw [hfill, substitute_plain hc, List.append_assoc, List.singleton_append]
  | reference r rest hr ih =>
    -- The slice ends at the `$`, and the next one begins behind the label.
    rw [substitutionsFrom_reference hr] at hsubs
    have hnext : before ++ part ++ '$' :: r.label ++ [] = before ++ part ++ '$' :: r.label :=
      List.append_nil _
    obtain ⟨texts, hholds, hfill⟩ :=
      ih (before ++ part ++ '$' :: r.label) [] (by simp [hline]) rfl
    rw [hnext, Text.byteSize_append] at hholds hfill
    subst hsubs
    refine ⟨part :: texts, .cons ⟨before, '$' :: (r.label ++ rest), ?_, ?_⟩ hholds, ?_⟩
    · rw [hline, List.append_assoc]
    · rw [Reference.substitution_start, Text.byteSize_append]
    · rw [List.map_cons, List.map_cons, fill_cons, hfill, Reference.substitution_value,
        substitute_reference hr, ← Utf8.encode_append, List.nil_append, List.append_assoc]

theorem substitute_of_substitutionsFrom_eq_nil {line : Text} {start : Nat}
    (h : substitutionsFrom valueOf start (pieces line) = []) : substitute valueOf line = line := by
  induction line using reference_induction generalizing start with
  | nil => rfl
  | plain c rest hc ih =>
    rw [substitutionsFrom_plain hc] at h
    rw [substitute_plain hc, ih h]
  | reference r rest hr ih =>
    rw [substitutionsFrom_reference hr] at h
    cases h

/-- A line is cut around its references, and filled with their values. -/
theorem substitute?_eq (valueOf : Reference → Text) (line : Text) :
    (∀ slice ∈ kept (Utf8.encode line).length (substitutions valueOf line), slice.Cuts line) ∧
      substitute? valueOf line = some (Utf8.encode (substitute valueOf line)) := by
  have hsubs : substitutions valueOf line =
      substitutionsFrom valueOf (Text.byteSize ([] ++ [])) (pieces line) := rfl
  obtain ⟨texts, hholds, hfill⟩ := keptFrom_encode [] [] rfl hsubs
  rw [← Utf8.length_encode] at hholds
  rw [substitute?]
  cases hfound : substitutions valueOf line with
  | nil => exact ⟨by simp [kept], by rw [substitute_of_substitutionsFrom_eq_nil hfound]⟩
  | cons sub later =>
    rw [hfound] at hholds hfill
    have hpieces : Slice.cutAll? (Utf8.encode line)
        (kept (Utf8.encode line).length (sub :: later)) = some (texts.map Utf8.encode) :=
      Slice.cutAll?_eq hholds
    refine ⟨Slice.cuts_of_holds hholds, ?_⟩
    dsimp only
    rw [hpieces, Option.map_some, hfill, List.nil_append]

/-! ## Lines -/

/-- **Scanning bytes is scanning characters.** Whatever is cut out of a line, to leave its comment
out, to split it or to expand it, begins and ends between two of its characters. So there is always
a result, and it is that of the scanners of characters. The operator that is out of place is the
same one, too. And no byte of a character of several bytes is taken for an operator, for a separator
or for a blank. -/
theorem scan_exact (s : Session) (line : Text) :
    let bytes := Utf8.encode line
    (∀ position, findComment line = .byte position → Slice.Cuts line ⟨0, position⟩) ∧
    (∀ found ∈ links bytes, found.2.Cuts line) ∧
    (∀ slice ∈ kept bytes.length (substitutions s.valueOf line), slice.Cuts line) ∧
    stripComment? line = some ((stripComment line).map Utf8.encode) ∧
    splitChain? bytes =
      some ((splitChain line).map fun link => (link.separator, Utf8.encode link.text)) ∧
    substitute? s.valueOf line = some (Utf8.encode (s.expand line)) ∧
    misplaced bytes = LineShell.misplaced line ∧
    ∀ (before : Text) (c : Char) (rest : Text), line = before ++ c :: rest → 1 < c.utf8Size →
      ∀ k < c.utf8Size,
        operatorAt? bytes (before.byteSize + k) = none ∧
        separatorAt? bytes (before.byteSize + k) = none ∧
        ∃ d, charAt? bytes (before.byteSize + k) = some d ∧ Mark.ofChar? d = none ∧
          isBlank d = false := by
  intro bytes
  have hlinks : ∀ found ∈ links bytes, found.2.Cuts line := fun found hfound =>
    Slice.cuts_of_holds (holds_links line) found.2 (List.mem_map_of_mem hfound)
  obtain ⟨hkept, hexpand⟩ := substitute?_eq s.valueOf line
  refine ⟨fun _ => cuts_of_findComment, hlinks, hkept, stripComment?_eq line,
    splitChain?_encode line, hexpand, misplacedFrom_encode [] false line, ?_⟩
  rintro before c rest hline hwide k hk
  have hbeyond : 0x7F < c.toNat := Nat.lt_of_not_le fun hc =>
    absurd hwide (by rw [Utf8.utf8Size_of_ascii hc]; decide)
  obtain ⟨d, hd, hd'⟩ := charAt?_beyond before hbeyond rest hk
  rw [← hline] at hd
  exact ⟨operatorAt?_of_beyond hd hd', separatorAt?_of_beyond hd hd', d, hd, plain_of_beyond hd'⟩

/-- Characters of two, three and four bytes on each side of separators, of a reference and of a
comment. -/
theorem scan_exact_wide :
    let s : Session :=
      { environment := .ofPairs [("A".toList, "ü".toList)]
        processId := "7".toList
        programName := "sh".toList }
    let line := "é;€ $A&&😀 #c".toList
    let bytes := Utf8.encode line
    (findComment line = .byte 16 ∧ Slice.Cuts line ⟨0, 16⟩) ∧
    (links bytes = [(.first, ⟨0, 2⟩), (.sequential, ⟨3, 9⟩), (.and, ⟨11, 18⟩)] ∧
      Slice.Cuts line ⟨11, 18⟩) ∧
    (kept bytes.length (substitutions s.valueOf line) = [⟨0, 7⟩, ⟨9, 18⟩] ∧
      Slice.Cuts line ⟨9, 18⟩) ∧
    substitute? s.valueOf line = some (Utf8.encode "é;€ ü&&😀 #c".toList) ∧
    misplaced bytes = none ∧
    bytes[13]? = some 0x98 ∧ operatorAt? bytes 13 = none ∧ separatorAt? bytes 13 = none := by
  intro s line bytes
  have hcomment : findComment line = .byte 16 := by decide
  have hlinks : links bytes = [(.first, ⟨0, 2⟩), (.sequential, ⟨3, 9⟩), (.and, ⟨11, 18⟩)] := by
    decide +kernel
  have hkept : kept bytes.length (substitutions s.valueOf line) = [⟨0, 7⟩, ⟨9, 18⟩] := by
    decide +kernel
  obtain ⟨hcomments, hcuts, hslices, -, -, hexpand, hmisplaced, hwide⟩ := scan_exact s line
  obtain ⟨hoperator, hseparator, -⟩ :=
    hwide "é;€ $A&&".toList '😀' " #c".toList rfl (by decide) 2 (by decide)
  refine ⟨⟨hcomment, hcomments 16 hcomment⟩, ⟨hlinks, hcuts (.and, ⟨11, 18⟩) ?_⟩,
    ⟨hkept, hslices ⟨9, 18⟩ ?_⟩, hexpand, ?_, by decide, hoperator, hseparator⟩
  · exact hlinks ▸ by simp
  · exact hkept ▸ by simp
  · exact hmisplaced.trans (by decide)

end LineShell.Bytewise
