import PolarCalc.Proofs.Grammar.Extent
/-!
# Where the prefix `j` gets stuck

A unary level takes `j` for its prefix operator whenever the rest reads as a
power.  If a power was read from the letter on instead, and what follows may
follow an expression, then its first operand is neither a name that falls apart
into `j` and a number nor a call of `j` with one argument: behind such a `j` the
second reading would have reached the same place as the first.
-/

namespace PolarCalc.Grammar

open PolarCalc.Text

section Operand

variable {conditional operand power : Rule Expr} {tier : Tier} {c d : Cursor} {ch : Char}
  {text rest : List Char} {e t : Expr}

/-! ## The operand that a power begins with -/

theorem chain_leading {fuel : Nat} {left whole : Expr} (hwhole : whole.leading = left.leading)
    (hread : (chain tier operand fuel left whole c).value? = some (e, d)) :
    e.leading = left.leading := by
  induction fuel generalizing left whole c with
  | zero =>
      simp only [chain, Attempt.value?_bind, Option.bind_eq_some_iff] at hread
      obtain ⟨_, -, heq⟩ := hread
      cases heq
      exact hwhole
  | succ fuel ih =>
      simp only [chain, Attempt.value?_bind, Option.bind_eq_some_iff] at hread
      obtain ⟨⟨found, c₁⟩, -, hread⟩ := hread
      cases found with
      | none =>
          cases hread
          exact hwhole
      | some spelling =>
          simp only [Attempt.value?_bind, Option.bind_eq_some_iff] at hread
          obtain ⟨⟨right, c₂⟩, -, hread⟩ := hread
          have hleading := ih (by rfl) hread
          exact hleading

theorem binaryLevel_leading (hread : (binaryLevel tier operand c).value? = some (e, d)) :
    ∃ first c', (operand c).value? = some (first, c') ∧ e.leading = first.leading := by
  rw [value?_binaryLevel, Option.bind_eq_some_iff] at hread
  obtain ⟨⟨first, c'⟩, hfirst, hread⟩ := hread
  refine ⟨first, c', hfirst, chain_leading ?_ hread⟩
  rfl

theorem powerLevel_leading (hread : (powerLevel conditional power c).value? = some (e, d)) :
    ∃ t c', (term conditional c).value? = some (t, c') ∧ e.leading = t.leading := by
  simp only [powerLevel, Attempt.value?_bind, Option.bind_eq_some_iff] at hread
  obtain ⟨⟨base, c₁⟩, hbase, ⟨found, c₂⟩, -, hread⟩ := hread
  obtain ⟨sum, _, hsum, hleading₁⟩ := binaryLevel_leading hbase
  obtain ⟨relational, _, hrelational, hleading₂⟩ := binaryLevel_leading hsum
  obtain ⟨t, c', ht, hleading₃⟩ := binaryLevel_leading hrelational
  have hleading := hleading₁.trans (hleading₂.trans hleading₃)
  refine ⟨t, c', ht, ?_⟩
  cases found with
  | none =>
      cases hread
      exact hleading
  | some caret =>
      simp only [Attempt.value?_bind, Option.bind_eq_some_iff] at hread
      obtain ⟨_, -, heq⟩ := hread
      cases heq
      exact hleading

theorem powerLevel_of_apart (hread : (term conditional c).value? = some (t, d)) (hd : d.At rest)
    (hapart : ∀ ch ∈ rest.head?, ch ∉ Category.operand.stops) :
    (powerLevel conditional power).end? c = some d := by
  have hnone : ∀ tier, ∀ w ∈ spellings tier, ¬ w.toList <+: rest := by
    rintro tier w hw ⟨behind, rfl⟩
    obtain ⟨ch, cs, htext, hstops⟩ := spelling_eq_cons hw
    rw [htext] at hapart
    exact hapart ch rfl (stops_operand _ hstops)
  have hcaret : ∀ w ∈ ["^"], ¬ w.toList <+: rest := by
    rintro w hw ⟨behind, rfl⟩
    obtain rfl := List.mem_singleton.1 hw
    exact hapart '^' rfl (by decide)
  have hproduct := value?_binaryLevel_of_none (value?_binaryLevel_of_none
    (value?_binaryLevel_of_none hread hd (hnone .relational)) hd (hnone .sum)) hd (hnone .product)
  have hstop := optionally_accepts_none hcaret d hd
  apply Rule.end?_of_value?
  rw [powerLevel, Attempt.value?_bind, product, hproduct, Option.bind_some, Attempt.value?_bind,
    hstop, Option.bind_some]
  rfl

theorem powerLevel_end?_of_term (h : conditional.Yields ReadsConditional) (hc : c.At text)
    (hends : (term conditional).end? c = (term conditional).end? d) :
    (powerLevel conditional power).end? c = (powerLevel conditional power).end? d := by
  have hterm := term_yields h
  have hrelational : (binaryLevel .relational (term conditional)).Yields _ :=
    binaryLevel_yields hterm
  have hsum : (binaryLevel .sum <| binaryLevel .relational <| term conditional).Yields _ :=
    binaryLevel_yields hrelational
  exact powerLevel_end? <| binaryLevel_end? hsum hc <| binaryLevel_end? hrelational hc <|
    binaryLevel_end? hterm hc hends

end Operand

/-! ## The second reading -/

section Behind

variable {conditional power : Rule Expr} {c c₁ d : Cursor} {x y text rest : List Char} {e t : Expr}

theorem startsPrefixed_j (hc : c.At ('j' :: text))
    (htext : ∀ ch ∈ text.head?, isLetter ch = false ∧ ch ≠ '_') :
    startsPrefixed "j" c = true := by
  have hstarts : c.startsWith "j".toList = true := (hc.startsWith_iff _).2 ⟨text, rfl⟩
  have hnext : startsPrefixed.beginsName (c.advance 1) = false := by
    have hrest : (c.advance 1).rest = text := (Cursor.At.advance (s := ['j']) hc).rest
    rw [startsPrefixed.beginsName, hrest]
    cases text with
    | nil => rfl
    | cons ch text => simpa using htext ch rfl
  rw [startsPrefixed, hstarts, hnext]
  rfl

theorem isNameStart_behind_j (hc : c.At ('j' :: text)) (hstarts : startsPrefixed "j" c = true) :
    ∀ ch ∈ text.head?, isNameStart ch = false := by
  have hrest : (c.advance 1).rest = text := (Cursor.At.advance (s := ['j']) hc).rest
  rw [startsPrefixed, Bool.and_eq_true] at hstarts
  have hnext := hstarts.2
  rw [startsPrefixed.beginsName, hrest] at hnext
  intro ch hch
  cases text with
  | nil => cases hch
  | cons g text =>
      have hchar : isLetter g = false ∧ g ≠ '_' := by simpa using hnext
      obtain rfl : g = ch := by simpa using hch
      by_contra hname
      rw [isLetter_of_isNameStart (by simpa using hname) hchar.2] at hchar
      cases hchar.1

theorem splits_of_startsPrefixed (hx : IsName x) (hc : c.At (x ++ y))
    (hstarts : startsPrefixed "j" c = true) : x = ['j'] ∨ Expr.splitsAfterJ x = true := by
  obtain ⟨ch, word, rfl, -, hword⟩ := hx
  obtain ⟨behind, heq⟩ := (hc.startsWith_iff _).1 (startsWith_of_startsPrefixed hstarts)
  obtain rfl : 'j' = ch := (List.cons.inj heq).1
  cases word with
  | nil => exact .inl rfl
  | cons g word =>
      have hname := isNameStart_behind_j hc hstarts g rfl
      have hchar := hword g List.mem_cons_self
      rw [isNameChar, hname, Bool.false_or] at hchar
      exact .inr hchar

theorem startsPrefixed_of_splits (hc : c.At (x ++ y)) (hsplits : Expr.splitsAfterJ x = true) :
    startsPrefixed "j" c = true := by
  unfold Expr.splitsAfterJ at hsplits
  split at hsplits
  · refine startsPrefixed_j hc ?_
    rintro g ⟨⟩
    refine ⟨isLetter_of_isAsciiDigit hsplits, ?_⟩
    rintro rfl
    exact absurd hsplits (by decide)
  · cases hsplits

theorem prefixedBy_of_end? {op : String} {rule : Rule Expr} (hstarts : startsPrefixed op c = true)
    (hend : rule.end? (c.behind op.length) = some d) : (prefixedBy op rule c).value? ≠ none := by
  obtain ⟨a, hread⟩ := Rule.value?_of_end? hend
  rw [prefixedBy, if_pos hstarts, Attempt.value?_bind, hread]
  nofun

theorem moreItems_nil {item : Rule Expr} {fuel : Nat}
    (hread : (moreItems item fuel c).value? = some ([], d)) : d = c := by
  cases fuel with
  | zero =>
      cases hread
      rfl
  | succ fuel =>
      unfold moreItems at hread
      split at hread
      · simp only [Attempt.value?_bind, Rule.value?_map, Option.bind_eq_some_iff,
          Option.map_eq_some_iff] at hread
        obtain ⟨_, -, _, -, _, -, heq⟩ := hread
        cases heq
      · cases hread
        rfl

theorem parenthesized_of_callTerm {function : String}
    (hread : (callTerm conditional c).value? = some (.term (.call function [e]), d)) :
    ∃ c', (name c).value? = some (function, c') ∧
      (parenthesized conditional c').value? = some (.term e, d) := by
  simp only [callTerm, Attempt.value?_bind, Option.bind_eq_some_iff] at hread
  obtain ⟨⟨f, c₁⟩, hname, ⟨opening, c₂⟩, hopening, ⟨args, c₃⟩, hargs, heq⟩ := hread
  cases heq
  refine ⟨c₁, hname, ?_⟩
  simp only [parenthesized, Attempt.value?_bind, hopening, Option.bind_some]
  unfold separatedItems at hargs
  split at hargs
  · simp only [Attempt.value?_bind, Option.bind_eq_some_iff] at hargs
    obtain ⟨_, -, heq⟩ := hargs
    cases heq
  · simp only [Attempt.value?_bind, Option.bind_eq_some_iff] at hargs
    obtain ⟨⟨first, c₄⟩, hfirst, ⟨more, c₅⟩, hmore, hargs⟩ := hargs
    split at hargs
    · rename_i hstarts
      simp only [Attempt.value?_bind, Option.bind_eq_some_iff] at hargs
      obtain ⟨⟨closing, c₆⟩, hclosing, heq⟩ := hargs
      cases heq
      obtain rfl := moreItems_nil hmore
      have hstarts : c₅.startsWith [')'] = true := hstarts
      simp only [hfirst, Option.bind_some, hstarts, if_true, Attempt.value?_bind, hclosing]
      rfl
    · cases hargs

theorem append_eq_append_of_run {p : Char → Bool} {run more before behind : List Char}
    (hrun : ∀ c ∈ run, p c = true) (hbehind : ∃ c ∈ behind.head?, p c = false)
    (h : run ++ more = before ++ behind) : ∃ between, before = run ++ between ∧
      more = between ++ behind := by
  rcases List.append_eq_append_iff.1 h with ⟨between, rfl, rfl⟩ | ⟨between, rfl, rfl⟩
  · exact ⟨between, rfl, rfl⟩
  · cases between with
    | nil => exact ⟨[], by simp, rfl⟩
    | cons b between =>
        obtain ⟨_, ⟨⟩, hb⟩ := hbehind
        rw [hrun b (by simp)] at hb
        cases hb

/-- Behind the `j` of a name that falls apart the whole power reads on, unless an
operator follows the number there; and that number goes beyond the name only
by the sign and the digits of an exponent. -/
theorem term_behind_j (hc : c.At (x ++ y)) (hx : ∀ ch ∈ x, isNameChar ch = true)
    (hsplits : Expr.splitsAfterJ x = true) (hy : EndsNumber y) :
    (∃ d, (powerLevel conditional power).end? (c.behind 1) = some d) ∨
      ∃ beyond blanks rest, y = beyond ++ (blanks ++ rest) ∧
        (beyond = [] ∨ ∃ sign digits, beyond = sign :: digits ∧ (sign = '+' ∨ sign = '-') ∧
          digits ≠ [] ∧ AllDigits digits) ∧
        (∀ ch ∈ blanks, isBlank ch = true) ∧ (∃ ch ∈ rest.head?, ch ∈ Category.operand.stops) ∧
        (term conditional).end? (c.behind 1) =
          some (c.advance (x ++ (beyond ++ blanks)).length) := by
  obtain ⟨g, x, rfl, hg⟩ : ∃ g x', x = 'j' :: g :: x' ∧ isAsciiDigit g = true := by
    unfold Expr.splitsAfterJ at hsplits
    split at hsplits
    · exact ⟨_, _, rfl, hsplits⟩
    · cases hsplits
  have hnoBlank : NoBlank (g :: (x ++ y)) := by
    rintro _ ⟨⟩
    by_contra hblank
    have hname := isNameChar_of_isBlank (by simpa using hblank)
    rw [isNameChar_of_isAsciiDigit hg] at hname
    cases hname
  have hbehind : c.behind ['j'].length = c.advance (['j'] ++ []).length :=
    Cursor.At.behind hc (by simp) hnoBlank
  have hd : (c.advance 1).At (g :: (x ++ y)) := Cursor.At.advance (s := ['j']) hc
  obtain ⟨tok, s, rest, htok, hsplit, ⟨blanks, hblanks, rfl⟩, hblank, hend⟩ :=
    term_of_isAsciiDigit hd hg
  rw [hsplit] at hd
  change c.behind 1 = c.advance 1 at hbehind
  rw [hbehind]
  by_cases hstops : ∃ ch ∈ rest.head?, ch ∈ Category.operand.stops
  · refine .inr ?_
    have hrun : ∀ ch ∈ g :: x, isNameChar ch = true := fun ch hch =>
      hx ch (List.mem_cons_of_mem _ hch)
    have hapart : ∃ ch ∈ (blanks ++ rest).head?, isNameChar ch = false := by
      cases blanks with
      | nil =>
          obtain ⟨ch, hch, hmem⟩ := hstops
          exact ⟨ch, hch, (stops_apart ch hmem).2.1⟩
      | cons b blanks => exact ⟨b, rfl, isNameChar_of_isBlank (hblanks b List.mem_cons_self)⟩
    rw [List.append_assoc] at hsplit
    obtain ⟨beyond, rfl, rfl⟩ := append_eq_append_of_run hrun hapart hsplit
    refine ⟨beyond, blanks, rest, rfl, ?_, hblanks, hstops, ?_⟩
    · cases beyond with
      | nil => exact .inl rfl
      | cons b beyond =>
          obtain ⟨hname, hpoint⟩ := hy b rfl
          rcases htok with htok | htok
          · have := htok.isNameChar b (by simp)
            rw [hname] at this
            cases this
          · obtain ⟨hsign, hne, hdigits⟩ := htok.digits_behind hname hpoint
            exact .inr ⟨b, beyond, rfl, hsign, hne, hdigits⟩
    · rw [hend, Cursor.advance_advance]
      congr 2
      simp only [List.length_append, List.length_cons]
      omega
  · obtain ⟨t, hread⟩ := Rule.value?_of_end? hend
    refine .inl ⟨_, powerLevel_of_apart hread hd.advance fun ch hch hmem => ?_⟩
    exact hstops ⟨ch, hch, hmem⟩

theorem term_of_digits {digits blanks : List Char} (hne : digits ≠ []) (hdigits : AllDigits digits)
    (hblanks : ∀ ch ∈ blanks, isBlank ch = true) (hrest : Stops rest)
    (hc : c.At (digits ++ blanks ++ rest)) :
    (term conditional).end? c = some (c.advance (digits ++ blanks).length) := by
  obtain ⟨g, digits, rfl⟩ := List.exists_cons_of_ne_nil hne
  have hg : isAsciiDigit g = true := hdigits g List.mem_cons_self
  have hname : ∀ d ∈ (g :: digits ++ blanks ++ rest).head?, isNameStart d = false := by
    rintro _ ⟨⟩
    exact isNameStart_of_isAsciiDigit hg
  have hinteger : integer.Refuses (g :: digits ++ blanks ++ rest) := by
    refine token_refuses ?_
    rw [List.append_assoc]
    refine integerToken?_digits hdigits fun ch hch => ?_
    by_contra hrun
    have hword := (hrest.endsNumber hblanks ch hch).1
    rw [isNameChar_of_isIntegerChar (by simpa using hrun)] at hword
    cases hword
  have hnumber : number.Accepts (g :: digits ++ blanks) (String.ofList (g :: digits)) rest := by
    refine number_accepts ?_ ⟨blanks, hblanks, ?_⟩ hrest
    · rw [String.toList_ofList]
      exact isNumber_of_allDigits hne hdigits
    · rw [String.toList_ofList]
  have hcall : (callTerm conditional c).value? = none := callTerm_refuses hname c hc
  rw [Rule.end?, value?_term_of_isNameChar hc (isNameChar_of_isAsciiDigit hg)]
  simp only [List.findSome?_cons, hcall, (name_refuses hname).map _ c hc, hinteger.map _ c hc,
    hnumber.map _ c hc]
  rfl

/-- A sum whose sign is taken for that of an exponent ends where it did before. -/
theorem sum_end?_of_sign (h : conditional.Yields ReadsConditional) {sign : Char}
    {digits blanks : List Char} (hsign : sign = '+' ∨ sign = '-') (hne : digits ≠ [])
    (hdigits : AllDigits digits) (hblanks : ∀ ch ∈ blanks, isBlank ch = true)
    (hrest : Follows .operand rest) (hread : (term conditional c).value? = some (t, c₁))
    (hc₁ : c₁.At (sign :: (digits ++ blanks ++ rest)))
    (hd : (term conditional).end? d = some (c₁.advance (1 + (digits ++ blanks).length))) :
    (binaryLevel .sum <| binaryLevel .relational <| term conditional).end? c =
      (binaryLevel .sum <| binaryLevel .relational <| term conditional).end? d := by
  have hterm := term_yields h
  have hrelational : (binaryLevel .relational (term conditional)).Yields _ :=
    binaryLevel_yields hterm
  have hnone : ∀ w ∈ spellings .relational, ¬ w.toList <+: sign :: (digits ++ blanks ++ rest) := by
    have hfollows : Follows (.level (.tier .relational)) (sign :: (digits ++ blanks ++ rest)) :=
      .cons (by rcases hsign with rfl | rfl <;> decide)
    exact hfollows.not_spelling
  have hfirst := value?_binaryLevel_of_none hread hc₁ hnone
  have hnoBlank : NoBlank (digits ++ blanks ++ rest) := by
    obtain ⟨g, digits, rfl⟩ := List.exists_cons_of_ne_nil hne
    rintro _ ⟨⟩
    by_contra hblank
    have hname := isNameChar_of_isBlank (by simpa using hblank)
    rw [isNameChar_of_isAsciiDigit (hdigits g List.mem_cons_self)] at hname
    cases hname
  have hfound : (optionally (spellings .sum)).Accepts [sign] (some (String.ofList [sign]))
      (digits ++ blanks ++ rest) := by
    refine optionally_accepts_some ⟨[], by simp⟩ hnoBlank ?_
    rcases hsign with rfl | rfl <;> rfl
  have hp : (c₁.advance 1).At (digits ++ blanks ++ rest) := Cursor.At.advance (s := [sign]) hc₁
  have hends : (binaryLevel .relational (term conditional)).end? (c₁.advance 1) =
      (binaryLevel .relational (term conditional)).end? d := by
    refine binaryLevel_end? hterm hp ?_
    rw [term_of_digits hne hdigits hblanks hrest.stops hp, hd, Cursor.advance_advance]
  exact binaryLevel_end?_behind hrelational hfirst hc₁ hfound nofun hends

end Behind

/-! ## The prefix is taken where it can be -/

section Plain

variable {conditional power : Rule Expr} {c d : Cursor} {text rest : List Char} {e : Expr}

theorem powerLevel_follows {t : Expr} {c' : Cursor} {behind : List Char}
    (hread : (powerLevel conditional power c).value? = some (e, d)) (hd : d.At rest)
    (hrest : Follows (.level .unary) rest)
    (ht : (term conditional c).value? = some (t, c')) (hc' : c'.At behind) :
    Follows .operand behind := by
  intro ch hch
  by_contra hstops
  have hapart : ∀ ch ∈ behind.head?, ch ∉ Category.operand.stops := by
    intro ch' hch'
    rwa [Option.mem_unique hch' hch]
  have hend : (powerLevel conditional power).end? c = some c' := powerLevel_of_apart ht hc' hapart
  rw [Rule.end?_of_value? hread, Option.some.injEq] at hend
  obtain rfl : rest = behind := by rw [← hd.rest, hend, hc'.rest]
  exact hstops (hrest.operand ch hch)

/-- A name that falls apart into `j` and a number is read as a name only where
the prefix gets stuck for lack of anything that may follow. -/
theorem ident_keepsJ (h : conditional.Yields ReadsConditional) {x : String}
    {blanks behind : List Char} {t : Expr} (hx : IsName x.toList) (hblanks : ∀ ch ∈ blanks, isBlank ch = true)
    (hbehind : Follows .operand behind) (hc : c.At (x.toList ++ (blanks ++ behind)))
    (hread : (term conditional c).value? = some (t, c.advance (x.toList ++ blanks).length))
    (hpower : (powerLevel conditional power).end? c = some d)
    (hsplits : Expr.splitsAfterJ x.toList = true) :
    ∃ d', (powerLevel conditional power).end? (c.behind 1) = some d' := by
  have hapart := hbehind.stops.endsNumber hblanks
  rcases term_behind_j hc hx.isNameChar hsplits hapart with
    hdone | ⟨beyond, blanks', rest, hsplit, hbeyond, hblanks', hstops, hend⟩
  · exact hdone
  have hrest : Follows .operand rest := by
    intro ch hch
    obtain ⟨ch', hch', hmem⟩ := hstops
    rwa [Option.mem_unique hch hch']
  refine ⟨d, ?_⟩
  rw [← hpower]
  symm
  rcases hbeyond with rfl | ⟨sign, digits, rfl, hsign, hne, hdigits⟩
  · obtain ⟨rfl, rfl⟩ := run_unique hblanks hblanks' hbehind.noBlank hrest.noBlank hsplit
    refine powerLevel_end?_of_term h hc ?_
    rw [Rule.end?_of_value? hread, hend, List.nil_append]
  · obtain rfl : blanks = [] := by
      cases blanks with
      | nil => rfl
      | cons b blanks =>
          obtain ⟨rfl, -⟩ := List.cons.inj hsplit
          have hblank := hblanks b List.mem_cons_self
          rcases hsign with rfl | rfl <;> exact absurd hblank (by decide)
    rw [List.nil_append] at hsplit
    subst hsplit
    rw [List.nil_append] at hc
    rw [List.append_nil] at hread
    have hterm := term_yields h
    have hrelational : (binaryLevel .relational (term conditional)).Yields _ :=
      binaryLevel_yields hterm
    have hsum : (binaryLevel .sum <| binaryLevel .relational <| term conditional).Yields _ :=
      binaryLevel_yields hrelational
    have hc₁ : (c.advance x.toList.length).At (sign :: (digits ++ blanks' ++ rest)) := by
      have := hc.advance
      simpa using this
    refine powerLevel_end? <| binaryLevel_end? hsum hc <|
      sum_end?_of_sign h hsign hne hdigits hblanks' hrest hread hc₁ ?_
    rw [hend, Cursor.advance_advance]
    congr 2
    simp only [List.length_append, List.length_cons]
    omega

/-- A call of a name that falls apart leaves the parenthesis behind the number. -/
theorem call_splits {x : String} {blanks after : List Char} (hx : IsName x.toList)
    (hblanks : ∀ ch ∈ blanks, isBlank ch = true)
    (hc : c.At (x.toList ++ (blanks ++ '(' :: after)))
    (hsplits : Expr.splitsAfterJ x.toList = true) :
    ∃ d', (powerLevel conditional power).end? (c.behind 1) = some d' := by
  have hopening : Stops ('(' :: after) := by
    rintro _ ⟨⟩
    exact ⟨by decide, by decide, by decide⟩
  rcases term_behind_j hc hx.isNameChar hsplits (hopening.endsNumber hblanks) with
    hdone | ⟨beyond, blanks', rest, hsplit, hbeyond, hblanks', ⟨ch, hch, hstops⟩, -⟩
  · exact hdone
  rcases hbeyond with rfl | ⟨sign, digits, rfl, hsign, -, -⟩
  · have hrest : NoBlank rest := by
      intro ch' hch'
      rw [Option.mem_unique hch' hch]
      exact (stops_apart ch hstops).1
    obtain ⟨-, rfl⟩ := run_unique hblanks hblanks' hopening.noBlank hrest hsplit
    cases hch
    exact absurd hstops (by decide)
  · cases blanks with
    | nil =>
        obtain ⟨rfl, -⟩ := List.cons.inj hsplit
        exact absurd hsign (by decide)
    | cons b blanks =>
        have hblank := hblanks b List.mem_cons_self
        obtain ⟨rfl, -⟩ := List.cons.inj hsplit
        rcases hsign with rfl | rfl <;> exact absurd hblank (by decide)

theorem call_keepsJ (h : conditional.Yields ReadsConditional) {x : Expr} {d' : Cursor}
    (hc : c.At text) (hread : (callTerm conditional c).value? = some (.term (.call "j" [x]), d'))
    (hterm : (term conditional).end? c = some d')
    (hpower : (powerLevel conditional power).end? c = some d) :
    startsPrefixed "j" c = true ∧ (powerLevel conditional power).end? (c.behind 1) = some d := by
  obtain ⟨c', hname, hparenthesized⟩ := parenthesized_of_callTerm hread
  have htoken : nameToken? text = some ['j'] ∧ c' = c.behind 1 := by
    rw [name, token, hc.rest] at hname
    cases htok : nameToken? text with
    | none =>
        rw [htok] at hname
        cases hname
    | some tok =>
        rw [htok] at hname
        simp only [Attempt.value?_pure, Option.some.injEq, Prod.mk.injEq] at hname
        obtain rfl : tok = ['j'] := by rw [← String.toList_ofList (l := tok), hname.1]; rfl
        exact ⟨rfl, hname.2.symm⟩
  obtain ⟨htok, rfl⟩ := htoken
  obtain ⟨-, after, rfl, hafter⟩ := nameToken?_eq_some htok
  have hc' : c.At (['j'] ++ after) := hc
  obtain ⟨s, behind, hsplit, ⟨blanks, hblanks, rfl⟩, -, hcursor⟩ := hc'.exists_lexeme
  rw [List.append_assoc] at hsplit
  obtain rfl : after = blanks ++ behind := List.append_cancel_left hsplit
  have hbehind : (c.behind 1).At behind := by
    rw [← List.append_assoc] at hc'
    have hat := hc'.advance
    rwa [← hcursor] at hat
  have hopening : ['('] <+: behind := by
    by_contra hno
    rw [parenthesized_refuses hno _ hbehind] at hparenthesized
    cases hparenthesized
  constructor
  · refine startsPrefixed_j hc fun ch hch => ?_
    cases blanks with
    | nil =>
        obtain ⟨more, rfl⟩ := hopening
        cases hch
        exact ⟨by decide, by decide⟩
    | cons b blanks =>
        have hblank := hblanks b List.mem_cons_self
        cases hch
        exact ⟨isLetter_of_isBlank hblank, ne_of_isBlank hblank (by decide)⟩
  · rw [← hpower]
    symm
    refine powerLevel_end?_of_term h hc ?_
    rw [hterm, eq_comm]
    have hterm' : (term conditional (c.behind 1)).value? = some (.term x, d') := by
      rw [term, Rule.value?_firstOf, List.findSome?_cons, hparenthesized]
    exact Rule.end?_of_value? hterm'

/-- What stands in front of the operand that a plain power begins with leaves the
prefix no second reading. -/
theorem keepsJ_of_plain (h : conditional.Yields ReadsConditional) (hc : c.At text)
    (hread : (powerLevel conditional power c).value? = some (e, d)) (hd : d.At rest)
    (hrest : Follows (.level .unary) rest)
    (hstuck : (prefixedBy "j" (powerLevel conditional power) c).value? = none) :
    e.leading.keepsJ = true := by
  obtain ⟨t, c', ht, hleading⟩ := powerLevel_leading hread
  obtain ⟨s, behind, rfl, rfl, hc', hspells, hcanonical, hblank⟩ := (term_yields h).split hc ht
  have hbehind := powerLevel_follows hread hd hrest ht hc'
  have hpower := Rule.end?_of_value? hread
  rw [hleading]
  by_contra hkeeps
  cases hcanonical with
  | parenthesized h => exact hkeeps h.keepsJ
  | list | integer | number => exact hkeeps rfl
  | @ident x hname =>
      obtain ⟨blanks, hblanks, rfl⟩ : Lexeme x.toList s := hspells
      have hsplits : Expr.splitsAfterJ x.toList = true := by
        simpa [Expr.leading, Expr.keepsJ] using hkeeps
      rw [List.append_assoc] at hc
      obtain ⟨d', hend⟩ := ident_keepsJ h hname hblanks hbehind hc ht hpower hsplits
      exact prefixedBy_of_end? (startsPrefixed_of_splits hc hsplits) hend hstuck
  | @call function args hname hargs =>
      obtain ⟨_, opening, inside, closing, rfl, ⟨blanks, hblanks, rfl⟩, hopening, -, -⟩ := hspells
      obtain ⟨after, rfl⟩ := hopening.eq_cons
      by_cases hsplits : Expr.splitsAfterJ function.toList = true
      · have hcall : c.At (function.toList ++
            (blanks ++ '(' :: (after ++ inside ++ closing ++ behind))) := by
          simpa using hc
        obtain ⟨d', hend⟩ := call_splits hname hblanks hcall hsplits
        exact prefixedBy_of_end? (startsPrefixed_of_splits hcall hsplits) hend hstuck
      · have hargument : function = "j" ∧ ∃ x, args = [x] := by
          simpa [Expr.leading, Expr.keepsJ, hsplits, List.length_eq_one_iff] using hkeeps
        obtain ⟨rfl, x, rfl⟩ := hargument
        have hcall : c.At ('j' :: (blanks ++ '(' :: (after ++ inside ++ closing ++ behind))) := by
          simpa using hc
        obtain ⟨hstarts, hend⟩ := call_keepsJ h hcall (callTerm_of_term hcall (by decide) ht)
          (Rule.end?_of_value? ht) hpower
        exact prefixedBy_of_end? hstarts hend hstuck

end Plain

end PolarCalc.Grammar
