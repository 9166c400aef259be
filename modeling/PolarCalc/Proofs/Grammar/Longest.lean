import PolarCalc.Proofs.Grammar.Room
import Mathlib.Data.List.Find
/-!
# Longest tokens

The rules for tokens and operators take as much of the text as they can: a name or a
number is the longest text of its language that stands there, an operator the longest of
its spellings, and an integer literal the whole run of digits and underscores or nothing
at all.  Behind it they pass over all blanks.

* `FindsLongest` — what is found in front of a text is the longest text of a language;
* `Rule.TakesAt` — what a rule reads at a position of a source, and where it goes on.
-/

namespace PolarCalc.Grammar

open PolarCalc.Text

/-! ## The longest text of a language -/

/-- The longest text of the language `L` that stands in front of `text`. -/
structure IsLongest (L : List Char → Prop) (text token : List Char) : Prop where
  mem : L token
  starts : token <+: text
  longest : ∀ other, L other → other <+: text → other.length ≤ token.length

/-- What is found in front of a text belongs to the language, and something is found that
is no shorter than any text of the language there. -/
structure FindsLongest (find : List Char → Option (List Char)) (L : List Char → Prop) :
    Prop where
  sound : ∀ text token, find text = some token → L token ∧ token <+: text
  complete : ∀ text other, L other → other <+: text →
    ∃ token, find text = some token ∧ other.length ≤ token.length

section Longest

variable {L : List Char → Prop} {find : List Char → Option (List Char)}
  {text token other : List Char}

theorem IsLongest.unique (h : IsLongest L text token) (h' : IsLongest L text other) :
    token = other := by
  have hfront := List.prefix_of_prefix_length_le h.starts h'.starts
    (h'.longest token h.mem h.starts)
  exact hfront.eq_of_length_le (h.longest other h'.mem h'.starts)

theorem FindsLongest.eq_some_iff (h : FindsLongest find L) :
    find text = some token ↔ IsLongest L text token := by
  have hlongest : ∀ found, find text = some found → IsLongest L text found := by
    intro found hfound
    obtain ⟨hmem, hstarts⟩ := h.sound text found hfound
    refine ⟨hmem, hstarts, fun other hother hfront => ?_⟩
    obtain ⟨best, hbest, hle⟩ := h.complete text other hother hfront
    rw [hfound] at hbest
    cases hbest
    exact hle
  constructor
  · exact hlongest token
  · intro htoken
    obtain ⟨found, hfound, -⟩ := h.complete text token htoken.mem htoken.starts
    rw [hfound, htoken.unique (hlongest found hfound)]

theorem FindsLongest.exists_iff (h : FindsLongest find L) :
    (∃ token, IsLongest L text token) ↔ ∃ token, L token ∧ token <+: text := by
  constructor
  · rintro ⟨token, htoken⟩
    exact ⟨token, htoken.mem, htoken.starts⟩
  · rintro ⟨other, hother, hfront⟩
    obtain ⟨token, htoken, -⟩ := h.complete text other hother hfront
    exact ⟨token, h.eq_some_iff.1 htoken⟩

end Longest

/-! ## Runs of a class -/

/-- Blanks only. -/
def AllBlank (text : List Char) : Prop := ∀ c ∈ text, isBlank c = true

/-- A character of one class and then characters of another. -/
def IsRun (first others : Char → Bool) (text : List Char) : Prop :=
  ∃ c rest, text = c :: rest ∧ first c = true ∧ ∀ d ∈ rest, others d = true

/-- The longest such run in front of a text. -/
def run? (first others : Char → Bool) : List Char → Option (List Char)
  | [] => none
  | c :: rest => if first c then some (c :: rest.takeWhile others) else none

section Runs

variable {p first others : Char → Bool} {run text : List Char}

theorem prefix_takeWhile (hrun : ∀ c ∈ run, p c = true) (h : run <+: text) :
    run <+: text.takeWhile p := by
  obtain ⟨rest, rfl⟩ := h
  rw [List.takeWhile_append_of_pos hrun]
  exact List.prefix_append _ _

theorem isLongest_blanks (text : List Char) : IsLongest AllBlank text (text.takeWhile isBlank) where
  mem := mem_takeWhile
  starts := List.takeWhile_prefix _
  longest _ hother hfront := (prefix_takeWhile hother hfront).length_le

theorem run?_findsLongest : FindsLongest (run? first others) (IsRun first others) where
  sound text token h := by
    cases text with
    | nil => cases h
    | cons c rest =>
        rw [run?] at h
        split at h
        · rename_i hc
          cases h
          refine ⟨⟨c, _, rfl, hc, mem_takeWhile⟩, ?_⟩
          exact (List.prefix_cons_inj c).2 (List.takeWhile_prefix _)
        · cases h
  complete text other hother hfront := by
    obtain ⟨c, run, rfl, hc, hrun⟩ := hother
    obtain ⟨rest, rfl⟩ := hfront
    refine ⟨c :: (run ++ rest).takeWhile others, ?_, ?_⟩
    · rw [List.cons_append, run?, if_pos hc]
    · have hle := (prefix_takeWhile hrun (List.prefix_append run rest)).length_le
      simpa using hle

end Runs

/-! ## Names and integer literals -/

theorem nameToken?_eq_run? (text : List Char) :
    nameToken? text = run? isNameStart isNameChar text := by
  cases text <;> rfl

theorem nameToken?_findsLongest : FindsLongest nameToken? IsName := by
  rw [funext nameToken?_eq_run?]
  exact run?_findsLongest

/-- Digits and underscores, a digit first. -/
def IsDigitRun : List Char → Prop := IsRun isAsciiDigit isIntegerChar

theorem integerToken?_eq_filter (text : List Char) :
    integerToken? text =
      (run? isAsciiDigit isIntegerChar text).filter fun run => run.getLast? == some '_' := by
  cases text with
  | nil => rfl
  | cons c rest =>
      rw [integerToken?, run?]
      by_cases hc : isAsciiDigit c = true <;> simp [hc, Option.filter]

/-- The run of digits and underscores is taken whole or refused whole. -/
theorem integerToken?_eq_some_iff {text run : List Char} :
    integerToken? text = some run ↔ IsLongest IsDigitRun text run ∧ run.getLast? = some '_' := by
  rw [integerToken?_eq_filter, Option.filter_eq_some_iff, run?_findsLongest.eq_some_iff,
    beq_iff_eq]
  rfl

example : integerToken? ['1', '0', '_', '5'] = none ∧
    integerToken? ['1', '0', '_'] = some ['1', '0', '_'] := by decide +kernel

/-! ## Number literals -/

theorem mantissaToken?_findsLongest : FindsLongest mantissaToken? IsMantissa where
  sound text token h := by
    obtain ⟨hmantissa, rest, rfl⟩ := mantissaToken?_eq_some h
    exact ⟨hmantissa, List.prefix_append _ _⟩
  complete text other hother hfront := by
    obtain ⟨rest, rfl⟩ := hfront
    cases hother with
    | whole hne hwhole =>
        have hdigits := prefix_takeWhile hwhole (List.prefix_append other rest)
        obtain ⟨token, htoken, hle⟩ := exists_mantissaToken? (takeWhile_ne_nil hne hwhole)
        exact ⟨token, htoken, (hdigits.trans hle).length_le⟩
    | @point whole fraction hne hwhole hfraction =>
        have hle := (prefix_takeWhile hfraction (List.prefix_append fraction rest)).length_le
        rw [List.append_assoc, List.cons_append, mantissaToken?_point hne hwhole]
        exact ⟨_, rfl, by simpa using hle⟩
    | @fraction fraction hne hfraction =>
        have hle := (prefix_takeWhile hfraction (List.prefix_append fraction rest)).length_le
        rw [List.cons_append, mantissaToken?_fraction (takeWhile_ne_nil hne hfraction)]
        exact ⟨_, rfl, by simpa using hle⟩

theorem exponentToken_findsLongest :
    FindsLongest (fun text => some (exponentToken text)) IsExponent where
  sound text token h := by
    obtain ⟨hexponent, rest, hsplit⟩ := exponentToken_spec text
    cases h
    exact ⟨hexponent, rest, hsplit.symm⟩
  complete text other hother hfront := by
    obtain ⟨rest, rfl⟩ := hfront
    refine ⟨_, rfl, ?_⟩
    cases hother with
    | absent => exact Nat.zero_le _
    | @present letter sign digits hletter hsign hne hdigits =>
        have hle := (prefix_takeWhile hdigits (List.prefix_append digits rest)).length_le
        rw [List.cons_append, List.append_assoc,
          exponentToken_present hletter hsign (takeWhile_ne_nil hne hdigits)]
        simpa using hle

/-- Where a longer mantissa stands there is no exponent behind the shorter one. -/
theorem exponent_eq_nil {mantissa more exponent rest : List Char} {c : Char}
    (hmantissa : IsMantissa (mantissa ++ c :: more)) (hexponent : IsExponent exponent)
    (hfront : exponent <+: c :: rest) : exponent = [] := by
  cases hexponent with
  | absent => rfl
  | present hletter =>
      obtain ⟨rfl, -⟩ := List.cons_prefix_cons.1 hfront
      have hc := hmantissa.isAsciiDigit_or_eq _ (List.mem_append_right _ List.mem_cons_self)
      rcases hletter with rfl | rfl <;> exact absurd hc (by decide)

theorem numberToken?_findsLongest : FindsLongest numberToken? IsNumber where
  sound text token h := by
    obtain ⟨hnumber, rest, rfl⟩ := numberToken?_eq_some h
    exact ⟨hnumber, List.prefix_append _ _⟩
  complete text other hother hfront := by
    -- the mantissa that is found goes on from the one of the other text
    obtain ⟨mantissa, exponent, rfl, hmantissa, hexponent⟩ := hother
    have hbegins : mantissa <+: text := (List.prefix_append _ _).trans hfront
    obtain ⟨token, htoken, hle⟩ :=
      mantissaToken?_findsLongest.complete text mantissa hmantissa hbegins
    obtain ⟨hfound, behind, rfl⟩ := mantissaToken?_eq_some htoken
    obtain ⟨more, rfl⟩ :=
      List.prefix_of_prefix_length_le hbegins (List.prefix_append token behind) hle
    rw [List.append_assoc, List.prefix_append_right_inj] at hfront
    refine ⟨_, by rw [numberToken?, htoken, Option.map_some], ?_⟩
    rw [List.drop_left, List.length_append, List.length_append]
    cases more with
    | nil =>
        obtain ⟨_, ⟨⟩, hbehind⟩ :=
          exponentToken_findsLongest.complete behind exponent hexponent hfront
        simpa using hbehind
    | cons c more =>
        obtain rfl := exponent_eq_nil hfound hexponent hfront
        rw [List.length_nil]
        omega

/-! ## Spellings -/

/-- One of the given words. -/
def IsOneOf (words : List String) (text : List Char) : Prop := ∃ w ∈ words, text = w.toList

/-- The first of the given words that stands in front of a text. -/
def firstWord? (words : List String) (text : List Char) : Option (List Char) :=
  (words.find? fun w => w.toList.isPrefixOf text).map String.toList

/-- If no word is the beginning of a later one, the first that stands there is the longest. -/
theorem firstWord?_findsLongest {words : List String}
    (hwords : words.Pairwise fun w later => ¬ w.toList <+: later.toList) :
    FindsLongest (firstWord? words) (IsOneOf words) where
  sound text token h := by
    obtain ⟨w, hfind, rfl⟩ := Option.map_eq_some_iff.1 h
    have hstarts := List.find?_some hfind
    exact ⟨⟨w, List.mem_of_find?_eq_some hfind, rfl⟩, List.isPrefixOf_iff_prefix.1 hstarts⟩
  complete text other hother hfront := by
    obtain ⟨v, hv, rfl⟩ := hother
    have hstarts : v.toList.isPrefixOf text = true := List.isPrefixOf_iff_prefix.2 hfront
    have hsome : (words.find? fun w => w.toList.isPrefixOf text).isSome = true :=
      List.find?_isSome.2 ⟨v, hv, hstarts⟩
    obtain ⟨w, hfind⟩ := Option.isSome_iff_exists.1 hsome
    refine ⟨w.toList, by rw [firstWord?, hfind, Option.map_some], ?_⟩
    obtain ⟨hw, before, after, rfl, hbefore⟩ := List.find?_eq_some_iff_append.1 hfind
    rcases List.mem_append.1 hv with hv | hv
    · have hnot : (!v.toList.isPrefixOf text) = true := hbefore v hv
      rw [hstarts] at hnot
      cases hnot
    rcases List.mem_cons.1 hv with rfl | hv
    · exact Nat.le_refl _
    · -- the word found would be the beginning of a later one that is longer
      have hlater := List.rel_of_pairwise_cons (List.pairwise_append.1 hwords).2.1 hv
      by_contra hlt
      exact hlater (List.prefix_of_prefix_length_le (List.isPrefixOf_iff_prefix.1 hw) hfront
        (Nat.le_of_not_le hlt))

theorem spellings_pairwise (tier : Tier) :
    (spellings tier).Pairwise fun w later => ¬ w.toList <+: later.toList := by
  cases tier <;> decide

/-! ## Rules at a position -/

/-- The rule reads something at the position. -/
def Rule.SucceedsAt (rule : Rule String) (source : List Char) (pos : Nat) : Prop :=
  ∃ read, (rule (.ofText source pos)).value? = some read

/-- At the position the rule reads the texts with the property `P`, and it goes on behind
what it has read and the longest run of blanks there. -/
def Rule.TakesAt (rule : Rule String) (source : List Char) (pos : Nat)
    (P : List Char → Prop) : Prop :=
  ∀ token c, (rule (.ofText source pos)).value? = some (token, c) ↔
    P token.toList ∧ ∃ blanks, IsLongest AllBlank (source.drop (pos + token.length)) blanks ∧
      c = .ofText source (pos + token.length + blanks.length)

section Rules

variable {rule : Rule String} {find : List Char → Option (List Char)} {P : List Char → Prop}
  {source token : List Char} {pos : Nat}

theorem lt_length_of_starts (hne : token ≠ []) (h : token <+: source.drop pos) :
    pos < source.length := by
  by_contra hle
  rw [List.drop_eq_nil_of_le (Nat.le_of_not_lt hle), List.prefix_nil] at h
  exact hne h

theorem Cursor.behind_ofText (hne : token ≠ []) (h : token <+: source.drop pos) :
    (Cursor.ofText source pos).behind token.length = .ofText source
      (pos + token.length + ((source.drop (pos + token.length)).takeWhile isBlank).length) := by
  have hpos := lt_length_of_starts hne h
  obtain ⟨rest, hrest⟩ := h
  have hat : (Cursor.ofText source pos).At
      (token ++ rest.takeWhile isBlank ++ rest.dropWhile isBlank) := by
    rw [List.append_assoc, List.takeWhile_append_dropWhile, hrest]
    exact ⟨rfl, by rw [List.length_drop]; exact Nat.add_sub_cancel' hpos.le⟩
  have hbehind : source.drop (pos + token.length) = rest := by
    rw [← List.drop_drop, ← hrest, List.drop_left]
  rw [hat.behind mem_takeWhile (head?_dropWhile _ _), hbehind, Nat.add_assoc,
    ← List.length_append]
  simp only [Cursor.advance, Cursor.ofText, List.drop_drop]

theorem Rule.takesAt_of_value?
    (hread : (rule (.ofText source pos)).value? = (find (source.drop pos)).map fun token =>
      (String.ofList token, (Cursor.ofText source pos).behind token.length))
    (hfind : ∀ token, find (source.drop pos) = some token ↔ P token)
    (hstarts : ∀ token, P token → token ≠ [] ∧ token <+: source.drop pos) :
    rule.TakesAt source pos P := by
  intro token c
  rw [hread, Option.map_eq_some_iff]
  constructor
  · rintro ⟨found, hfound, heq⟩
    cases heq
    have hP := (hfind found).1 hfound
    obtain ⟨hne, hfront⟩ := hstarts found hP
    rw [String.toList_ofList, String.length_ofList]
    exact ⟨hP, _, isLongest_blanks _, Cursor.behind_ofText hne hfront⟩
  · rintro ⟨hP, blanks, hblanks, rfl⟩
    obtain ⟨hne, hfront⟩ := hstarts _ hP
    refine ⟨token.toList, (hfind _).2 hP, ?_⟩
    rw [String.ofList_toList, Cursor.behind_ofText hne hfront, String.length_toList,
      hblanks.unique (isLongest_blanks _)]

theorem Rule.TakesAt.succeedsAt_iff (h : rule.TakesAt source pos P) :
    rule.SucceedsAt source pos ↔ ∃ token, P token := by
  constructor
  · rintro ⟨⟨token, c⟩, hread⟩
    exact ⟨token.toList, ((h token c).1 hread).1⟩
  · rintro ⟨token, hP⟩
    refine ⟨(String.ofList token, _), (h _ _).2 ⟨?_, _, isLongest_blanks _, rfl⟩⟩
    rwa [String.toList_ofList]

theorem value?_token (find : List Char → Option (List Char)) (sort expected : String)
    (c : Cursor) :
    (Grammar.token find sort expected c).value? =
      (find c.rest).map fun text => (String.ofList text, c.behind text.length) := by
  unfold Grammar.token
  cases find c.rest <;> rfl

theorem token_takesAt {sort expected : String}
    (hfind : ∀ token, find (source.drop pos) = some token ↔ P token)
    (hstarts : ∀ token, P token → token ≠ [] ∧ token <+: source.drop pos) :
    (Grammar.token find sort expected).TakesAt source pos P :=
  Rule.takesAt_of_value? (value?_token find sort expected _) hfind hstarts

theorem value?_oneOf {words : List String} (hwords : ∀ w ∈ words, w.toList ≠ []) :
    (oneOf words (.ofText source pos)).value? =
      (firstWord? words (source.drop pos)).map fun text =>
        (String.ofList text, (Cursor.ofText source pos).behind text.length) := by
  have hsame : ∀ w ∈ words, (Cursor.ofText source pos).startsWith w.toList =
      w.toList.isPrefixOf (source.drop pos) := by
    intro w hw
    rw [Cursor.startsWith, Bool.eq_iff_iff, Bool.and_eq_true, decide_eq_true_eq,
      List.isPrefixOf_iff_prefix, List.isPrefixOf_iff_prefix]
    exact ⟨And.right, fun h => ⟨(lt_length_of_starts (hwords w hw) h).le, h⟩⟩
  rw [firstWord?, ← List.find?_congr hsame]
  unfold oneOf
  cases words.find? fun w => (Cursor.ofText source pos).startsWith w.toList with
  | none => rfl
  | some w =>
      simp only [Option.map_some, Attempt.value?_pure, String.ofList_toList,
        String.length_toList]

theorem oneOf_takesAt {words : List String} (hwords : ∀ w ∈ words, w.toList ≠ [])
    (hfind : FindsLongest (firstWord? words) (IsOneOf words)) :
    (oneOf words).TakesAt source pos (IsLongest (IsOneOf words) (source.drop pos)) := by
  refine Rule.takesAt_of_value? (value?_oneOf hwords) (fun _ => hfind.eq_some_iff) ?_
  rintro _ ⟨⟨w, hw, rfl⟩, hstarts, -⟩
  exact ⟨hwords w hw, hstarts⟩

end Rules

/-! ## The scanning rules -/

theorem IsRun.ne_nil {first others : Char → Bool} {run : List Char} (h : IsRun first others run) :
    run ≠ [] := by
  obtain ⟨c, rest, rfl, -⟩ := h
  exact List.cons_ne_nil _ _

theorem IsNumber.ne_nil {text : List Char} (h : IsNumber text) : text ≠ [] := by
  obtain ⟨c, rest, rfl, -⟩ := h.head
  exact List.cons_ne_nil _ _

/-- A rule for a token whose language has no empty text takes the longest token there is
and succeeds if there is one. -/
theorem token_takesLongest {find : List Char → Option (List Char)} {L : List Char → Prop}
    {sort expected : String} (hfind : FindsLongest find L) (hne : ∀ token, L token → token ≠ [])
    (source : List Char) (pos : Nat) :
    (token find sort expected).TakesAt source pos (IsLongest L (source.drop pos)) ∧
      ((token find sort expected).SucceedsAt source pos ↔
        ∃ token, token ≠ [] ∧ L token ∧ token <+: source.drop pos) := by
  have htakes : (token find sort expected).TakesAt source pos (IsLongest L (source.drop pos)) :=
    token_takesAt (fun _ => hfind.eq_some_iff) fun token h => ⟨hne token h.mem, h.starts⟩
  refine ⟨htakes, ?_⟩
  rw [htakes.succeedsAt_iff, hfind.exists_iff]
  constructor
  · rintro ⟨token, hmem, hstarts⟩
    exact ⟨token, hne token hmem, hmem, hstarts⟩
  · rintro ⟨token, -, hmem, hstarts⟩
    exact ⟨token, hmem, hstarts⟩

/-- At every position of every source the rules for names and numbers succeed if some text
of their language stands there, and take the longest one; the rule for integer literals
succeeds if the longest run of digits and underscores that begins with a digit ends with an
underscore, and takes this run; the rule for the relational operators takes the longest of
their spellings.  All of them go on behind the longest run of blanks after the token. -/
theorem scanning_takes_longest (source : List Char) (pos : Nat) :
    (name.TakesAt source pos (IsLongest IsName (source.drop pos)) ∧
      (name.SucceedsAt source pos ↔
        ∃ token, token ≠ [] ∧ IsName token ∧ token <+: source.drop pos)) ∧
    (number.TakesAt source pos (IsLongest IsNumber (source.drop pos)) ∧
      (number.SucceedsAt source pos ↔
        ∃ token, token ≠ [] ∧ IsNumber token ∧ token <+: source.drop pos)) ∧
    (integer.TakesAt source pos
        (fun run => IsLongest IsDigitRun (source.drop pos) run ∧ run.getLast? = some '_') ∧
      (integer.SucceedsAt source pos ↔
        ∃ run, IsLongest IsDigitRun (source.drop pos) run ∧ run.getLast? = some '_')) ∧
    ((oneOf (spellings .relational)).TakesAt source pos
        (IsLongest (IsOneOf (spellings .relational)) (source.drop pos)) ∧
      ((oneOf (spellings .relational)).SucceedsAt source pos ↔
        ∃ w ∈ spellings .relational, w.toList <+: source.drop pos)) := by
  have hinteger : integer.TakesAt source pos
      (fun run => IsLongest IsDigitRun (source.drop pos) run ∧ run.getLast? = some '_') :=
    token_takesAt (fun _ => integerToken?_eq_some_iff) fun _ h => ⟨h.1.mem.ne_nil, h.1.starts⟩
  have hspelling := firstWord?_findsLongest (spellings_pairwise .relational)
  have hrelational : (oneOf (spellings .relational)).TakesAt source pos
      (IsLongest (IsOneOf (spellings .relational)) (source.drop pos)) :=
    oneOf_takesAt (fun _ => spelling_ne_nil) hspelling
  refine ⟨token_takesLongest nameToken?_findsLongest (fun _ => IsRun.ne_nil) source pos,
    token_takesLongest numberToken?_findsLongest (fun _ => IsNumber.ne_nil) source pos,
    ⟨hinteger, hinteger.succeedsAt_iff⟩, hrelational, ?_⟩
  rw [hrelational.succeedsAt_iff, hspelling.exists_iff]
  constructor
  · rintro ⟨_, ⟨w, hw, rfl⟩, hstarts⟩
    exact ⟨w, hw, hstarts⟩
  · rintro ⟨w, hw, hstarts⟩
    exact ⟨_, ⟨w, hw, rfl⟩, hstarts⟩

end PolarCalc.Grammar
