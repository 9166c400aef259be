import PolarCalc.Proofs.Grammar.Context
/-!
# Names on a line

The line `let name = text` assigns to this name if it can be read at all, and the name
alone on a line is the variable of that name.  The exception is a name that falls apart
into `j` and a number: the line is a product with the imaginary unit or cannot be read,
and mentions no name.
-/

namespace PolarCalc

open PolarCalc.Text PolarCalc.Grammar

/-! ## Texts of name characters -/

section NameCharacters

variable {e : Expr} {s word : List Char}

theorem Grammar.Lexeme.mem {c : Char} (h : Lexeme (c :: word) s) : c ∈ s :=
  h.starts.subset List.mem_cons_self

theorem blanks_eq_nil {blanks : List Char} (hblanks : ∀ c ∈ blanks, isBlank c = true)
    (hchars : ∀ c ∈ blanks, isNameChar c = true) : blanks = [] := by
  apply List.eq_nil_iff_forall_not_mem.2
  intro c hc
  have hname := isNameChar_of_isBlank (hblanks c hc)
  rw [hchars c hc] at hname
  cases hname

theorem Grammar.Lexeme.eq_word (h : Lexeme word s) (hs : ∀ c ∈ s, isNameChar c = true) :
    s = word := by
  obtain ⟨blanks, hblanks, rfl⟩ := h
  rw [blanks_eq_nil hblanks fun c hc => hs c (List.mem_append_right word hc), List.append_nil]

/-- Between the characters of a name there is no operator. -/
theorem not_spells_binary {tier : Tier} {left right : Expr} {op : String}
    (hs : (Expr.binary tier left op right).Spells s) (hchars : ∀ c ∈ s, isNameChar c = true) :
    False := by
  obtain ⟨before, sign, behind, spelling, rfl, -, hspelling, -, hsign, -⟩ := hs
  obtain ⟨c, cs, htext, hc⟩ := spelling_eq_cons hspelling
  rw [htext] at hsign
  have hname := (stops_apart c (stops_operand _ hc)).2.1
  rw [hchars c (by simp [hsign.mem])] at hname
  cases hname

theorem not_mem_of_isNameChar {c : Char} (hs : ∀ c ∈ s, isNameChar c = true)
    (hc : isNameChar c = false) : c ∉ s := by
  intro hmem
  rw [hs c hmem] at hc
  cases hc

/-- Without a prefix operator a name that falls apart would be kept as a name. -/
theorem not_plain_of_splits (h : Canonical (.level .power) e) (hkeeps : e.leading.keepsJ = true)
    (hs : e.Spells s) (hchars : ∀ c ∈ s, isNameChar c = true)
    (hsplits : Expr.splitsAfterJ s = true) : False := by
  obtain ⟨before, behind, rfl, hbefore, hbehind⟩ := split_leading h nofun nofun hs
  obtain rfl : behind = [] := by
    cases behind with
    | nil => rfl
    | cons c behind =>
        have hname := (stops_apart c (hbehind c rfl)).2.1
        rw [hchars c (by simp)] at hname
        cases hname
  rw [List.append_nil] at hchars hsplits
  have hstart : ∀ c ∈ before.head?, isNameStart c = true := by
    unfold Expr.splitsAfterJ at hsplits
    split at hsplits
    · rintro _ ⟨⟩
      decide
    · cases hsplits
  obtain ⟨x, -, hleading | ⟨args, hleading, -⟩⟩ :=
    operand_named (h.leading nofun nofun) hbefore hstart
  · rw [hleading] at hbefore hkeeps
    have hword : before = x.toList := Lexeme.eq_word hbefore hchars
    rw [Expr.keepsJ, ← hword, hsplits] at hkeeps
    cases hkeeps
  · rw [hleading] at hbefore
    obtain ⟨name, opening, inside, closing, rfl, -, hopening, -⟩ := hbefore
    exact absurd (by simp [hopening.mem])
      (not_mem_of_isNameChar hchars (by decide : isNameChar '(' = false))

end NameCharacters

/-! ## Lines -/

namespace Statement

variable {name text : String} {t : Statement}

/-- A name alone on a line is the variable of that name. -/
theorem parse_name (hname : IsName name.toList) (hkeeps : Expr.splitsAfterJ name.toList = false) :
    parse name = .ok ⟨.express, (Expr.ident name).alone⟩ := by
  apply Expr.parse_statement_iff.2
  apply Expr.parse_of_spells (Expr.canonical_alone (.ident hname) _)
  · exact Expr.spells_alone (.self _)
  · simp [Expr.keepsJ, hkeeps]

theorem express_of_parse_name (hname : IsName name.toList)
    (h : parse name = .ok t) :
    ∃ e, t = ⟨.express, e⟩ ∧ PolarCalc.Canonical (.level .conditional) e ∧
      e.Spells name.toList := by
  obtain ⟨⟨-, hbody⟩, blanks, head, body, htext, hblanks, hspells, hspellsBody⟩ :=
    parse_eq_ok_iff.1 h
  have hchars := hname.isNameChar
  obtain rfl : blanks = [] := by
    apply blanks_eq_nil hblanks
    intro c hc
    apply hchars
    simp [htext, hc]
  have habsent (c : Char) (hc : isNameChar c = false) : c ∉ name.toList :=
    not_mem_of_isNameChar hchars hc
  obtain ⟨th, e⟩ := t
  cases th with
  | express =>
      obtain rfl : head = [] := hspells
      exact ⟨e, rfl, hbody, htext ▸ hspellsBody⟩
  | assign target =>
      obtain ⟨_, _, sign, rfl, -, -, -, hsign⟩ := hspells
      exact absurd (by simp [htext, hsign.mem]) (habsent '=' (by decide))
  | define function params =>
      obtain ⟨_, _, _, _, _, _, rfl, hbackslash, -⟩ := hspells
      exact absurd (by simp [htext, hbackslash.mem]) (habsent '\\' (by decide))

theorem target_unique {target : String} {rest : List Char} (hname : IsName name.toList)
    (h : (Head.assign target).Canonical) {head body : List Char}
    (hhead : (Head.assign target).Spells head)
    (htext : "let".toList ++ ([' '] ++ (name.toList ++ ' ' :: rest)) = head ++ body) :
    target = name := by
  obtain ⟨_, _, _, rfl, ⟨blanks, hblanks, rfl⟩, -, ⟨blanks', hblanks', rfl⟩, hsign⟩ := hhead
  obtain ⟨sign, rfl⟩ := hsign.eq_cons
  simp only [List.append_assoc] at htext
  obtain ⟨-, hbehind⟩ := run_unique isBlank_of_mem_space hblanks
    (name_noBlank hname (.self _)) (name_noBlank h (.self _)) (List.append_cancel_left htext)
  have hblank : ∀ c ∈ (' ' :: rest).head?, isNameChar c = false := by
    rintro _ ⟨⟩
    decide
  have hequals : ∀ c ∈ (blanks' ++ ('=' :: sign ++ body)).head?, isNameChar c = false := by
    cases blanks' with
    | nil =>
        rintro _ ⟨⟩
        decide
    | cons b blanks' =>
        rintro _ ⟨⟩
        exact isNameChar_of_isBlank (hblanks' b List.mem_cons_self)
  obtain ⟨hsame, -⟩ := run_unique hname.isNameChar (IsName.isNameChar h) hblank hequals hbehind
  exact (String.toList_inj.1 hsame).symm

theorem head_of_assignment (hname : IsName name.toList)
    (h : parse ("let " ++ name ++ " = " ++ text) = .ok t) : t.head = .assign name := by
  obtain ⟨⟨hhead, hbody⟩, blanks, head, body, htext, hblanks, hspells, hspellsBody⟩ :=
    parse_eq_ok_iff.1 h
  obtain ⟨th, e⟩ := t
  have hline : ("let " ++ name ++ " = " ++ text).toList =
      "let".toList ++ ([' '] ++ (name.toList ++ ' ' :: '=' :: ' ' :: text.toList)) := by
    simp
  rw [hline] at htext
  obtain rfl : blanks = [] := by
    cases blanks with
    | nil => rfl
    | cons b blanks =>
        have hb := hblanks b List.mem_cons_self
        obtain rfl : 'l' = b := (List.cons.inj htext).1
        exact absurd hb (by decide)
  rw [List.nil_append] at htext
  cases th with
  | assign target => rw [target_unique hname hhead hspells htext]
  | define function params =>
      obtain ⟨_, _, _, _, _, _, rfl, hbackslash, -⟩ := hspells
      obtain ⟨more, rfl⟩ := hbackslash.eq_cons
      exact absurd (List.cons.inj htext).1 (by decide)
  | express =>
      -- behind `let` a name follows, which no expression has there
      obtain rfl : head = [] := hspells
      rw [List.nil_append] at htext
      have hbegins : BeginsWord body := by
        rw [← htext] at hspellsBody ⊢
        exact expression_word hbody hspellsBody (by decide) (by decide)
      have hblank : ∀ c ∈ ([' '] ++ (name.toList ++ ' ' :: '=' :: ' ' :: text.toList)).head?,
          isNameChar c = false := by
        rintro _ ⟨⟩
        decide
      have hlet : ∀ c ∈ "let".toList, isNameChar c = true :=
        List.all_eq_true.1 (by decide : "let".toList.all isNameChar = true)
      have hnone := hbegins.behind htext.symm hlet hblank isBlank_of_mem_space
        (name_noBlank hname (.self _))
      obtain ⟨c, word, hword, hc, -⟩ := hname
      rw [hword] at hnone
      rw [hnone c rfl] at hc
      cases hc

end Statement

end PolarCalc
