import PolarCalc.Grammar.Parse
import PolarCalc.Proofs.Grammar.Located
/-!
# Room to read in

The rules are given room for as many turns as there are characters left.  Every
turn reads a character, so that more room changes nothing: the levels of the
grammar satisfy the equations that they are written by, without any bound.
-/

namespace PolarCalc.Grammar

open PolarCalc.Text

section Rules

variable {α : Type} {text : List Char} {n : Nat}

theorem Cursor.In.remaining_eq {c : Cursor} (hc : c.In text) :
    c.remaining + c.pos = text.length := by
  have hle := hc.pos_le
  rw [Cursor.remaining, hc.length]
  omega

theorem Cursor.In.remaining_pos {c : Cursor} (hc : c.In text) {word : List Char}
    (h : c.startsWith word = true) (hne : word ≠ []) : 0 < c.remaining := by
  have hfront := ((hc.here.startsWith_iff word).1 h).length_le
  have hword : 0 < word.length := List.length_pos_iff.2 hne
  rw [hc.here.remaining_eq]
  omega

theorem Cursor.In.startsWith_eq_false {c : Cursor} (hc : c.In text) (h : c.remaining = 0)
    {word : List Char} (hne : word ≠ []) : c.startsWith word = false := by
  rw [Bool.eq_false_iff]
  intro hstarts
  exact Nat.ne_of_gt (hc.remaining_pos hstarts hne) h

/-! ## Separated items -/

theorem moreItems_of_not_comma {item : Rule α} {c : Cursor} (h : c.startsWith [','] = false)
    (fuel : Nat) : moreItems item fuel c = return ([], c) := by
  cases fuel with
  | zero => rfl
  | succ fuel => rw [moreItems, h, if_neg Bool.false_ne_true]

theorem moreItems_alike {item item' : Rule α} (hitem : item.Alike text n item')
    {fuel fuel' : Nat} {c : Cursor} (hc : c.In text) (hn : n ≤ c.pos)
    (hfuel : c.remaining ≤ fuel) (hfuel' : c.remaining ≤ fuel') :
    (moreItems item fuel c).Alike text c.pos (moreItems item' fuel' c) := by
  induction fuel generalizing fuel' c with
  | zero =>
      have hcomma : c.startsWith [','] = false :=
        hc.startsWith_eq_false (Nat.le_zero.1 hfuel) (List.cons_ne_nil _ _)
      rw [moreItems_of_not_comma hcomma, moreItems_of_not_comma hcomma]
      exact .pure hc (Nat.le_refl _) []
  | succ fuel ih =>
      cases hcomma : c.startsWith [','] with
      | false =>
          rw [moreItems_of_not_comma hcomma, moreItems_of_not_comma hcomma]
          exact .pure hc (Nat.le_refl _) []
      | true =>
          have hpos := hc.remaining_pos hcomma (List.cons_ne_nil _ _)
          obtain ⟨fuel', rfl⟩ := Nat.exists_eq_add_one.2 (Nat.lt_of_lt_of_le hpos hfuel')
          rw [moreItems, moreItems, hcomma, if_pos rfl, if_pos rfl]
          have hword := word_alike (n := n) (by decide : ",".toList ≠ []) c hc hn
          refine hword.bind fun _ d hd hcd => ?_
          refine (hitem d hd (by omega)).bind fun first d' hd' hdd' => ?_
          have hroom := hc.remaining_eq
          have hroom' := hd'.remaining_eq
          -- a comma and an item were read, so that the room left still covers the rest
          have hrest := ih hd' (by omega) (by omega) (by omega : d'.remaining ≤ fuel')
          exact (hrest.map (first :: ·)).imp (by omega)

theorem separatedItems_alike {item item' : Rule α} (hitem : item.Alike text n item')
    {closer : String} (hcloser : closer.toList ≠ []) :
    (separatedItems item closer).Alike text n (separatedItems item' closer) := by
  intro c hc hn
  refine .ite (fun _ => ?_) fun _ => ?_
  · exact (word_alike hcloser c hc hn).bind fun _ d hd hcd => .pure hd hcd []
  · refine (hitem c hc hn).bind fun first d hd hcd => ?_
    have hmore := moreItems_alike hitem hd (by omega) (Nat.le_refl d.remaining) (Nat.le_refl _)
    refine hmore.bind fun rest d' hd' hdd' => ?_
    refine .ite (fun _ => ?_) fun _ => ?_
    · refine (word_alike hcloser d' hd' (by omega : n ≤ d'.pos)).bind fun _ d'' hd'' hdd'' => ?_
      exact .pure hd'' (by omega) _
    · exact .fail hd' (List.cons_ne_nil _ _) (head?_message (head?_message (by decide) _) _)

/-! ## Terms -/

section Levels

variable {conditional conditional' power power' : Rule Expr}

theorem parenthesized_alike (hconditional : conditional.Alike text (n + 1) conditional') :
    (parenthesized conditional).Alike text n (parenthesized conditional') := by
  intro c hc hn
  refine (word_alike (by decide) c hc hn).bind fun _ d hd hcd => ?_
  refine (hconditional d hd (by omega)).bind fun inner d' hd' hdd' => ?_
  refine .ite (fun _ => ?_) fun _ => ?_
  · refine (word_alike (by decide) d' hd' (by omega : n ≤ d'.pos)).bind fun _ d'' hd'' hdd'' => ?_
    exact .pure hd'' (by omega) _
  · exact .fail hd' (List.cons_ne_nil _ _) (by decide)

theorem listTerm_alike (hconditional : conditional.Alike text (n + 1) conditional') :
    (listTerm conditional).Alike text n (listTerm conditional') := by
  intro c hc hn
  refine (word_alike (by decide) c hc hn).bind fun _ d hd hcd => ?_
  have hitems := separatedItems_alike hconditional (by decide : "]".toList ≠ []) d hd (by omega)
  exact hitems.bind fun items d' hd' hdd' => .pure hd' (by omega) _

theorem callTerm_alike (hconditional : conditional.Alike text (n + 1) conditional') :
    (callTerm conditional).Alike text n (callTerm conditional') := by
  intro c hc hn
  refine (name_alike c hc hn).bind fun function d hd hcd => ?_
  refine (word_alike (by decide) d hd (by omega : n ≤ d.pos)).bind fun _ d' hd' hdd' => ?_
  have hargs := separatedItems_alike hconditional (by decide : ")".toList ≠ []) d' hd' (by omega)
  exact hargs.bind fun args d'' hd'' hdd'' => .pure hd'' (by omega) _

theorem term_alike (hconditional : conditional.Alike text (n + 1) conditional') :
    (term conditional).Alike text n (term conditional') :=
  .firstOf (parenthesized_alike hconditional) <|
    .cons (listTerm_alike hconditional) <|
    .cons (callTerm_alike hconditional) <|
    .cons (name_alike.map _) <| .cons (integer_alike.map _) <| .cons (number_alike.map _) .nil

/-! ## Binary levels -/

theorem spellings_ne_nil (tier : Tier) : spellings tier ≠ [] := by
  cases tier <;> exact List.cons_ne_nil _ _

theorem spelling_ne_nil {tier : Tier} {spelling : String} (h : spelling ∈ spellings tier) :
    spelling.toList ≠ [] := by
  cases tier <;> revert spelling <;> decide

/-- At the end of the text a chain ends, however much room there is. -/
theorem chain_of_atEnd {tier : Tier} {operand : Rule Expr} {c : Cursor} (hc : c.In text)
    (h : c.remaining = 0) (fuel : Nat) (left whole : Expr) :
    chain tier operand fuel left whole c =
      optionally (spellings tier) c >>= fun read => return (whole, read.2) := by
  have hnone : (spellings tier).find? (fun w => c.startsWith w.toList) = none := by
    rw [List.find?_eq_none]
    intro w hw
    rw [hc.startsWith_eq_false h (spelling_ne_nil hw)]
    exact Bool.false_ne_true
  have hfails : oneOf (spellings tier) c =
      fail c "Expected operator" ((spellings tier).map quotedWord) := by
    unfold oneOf
    simp only [hnone]
  have hread : ∃ failures noted, optionally (spellings tier) c =
      ⟨.ok (none, c), failures, noted⟩ := by
    rw [optionally, Rule.map, hfails]
    exact ⟨_, _, rfl⟩
  obtain ⟨failures, noted, hread⟩ := hread
  cases fuel with
  | zero => rw [chain, hread]
  | succ fuel =>
      rw [chain, hread]
      rfl

theorem chain_alike {tier : Tier} {operand operand' : Rule Expr}
    (hoperand : operand.Alike text n operand') {fuel fuel' : Nat} {c : Cursor} (hc : c.In text)
    (hn : n ≤ c.pos) (hfuel : c.remaining ≤ fuel) (hfuel' : c.remaining ≤ fuel')
    (left whole : Expr) :
    (chain tier operand fuel left whole c).Alike text c.pos
      (chain tier operand' fuel' left whole c) := by
  have hoptionally {d : Cursor} (hd : d.In text) :=
    optionally_alike (spellings_ne_nil tier) (fun _ => spelling_ne_nil) hd
  induction fuel generalizing fuel' c left whole with
  | zero =>
      have hzero := Nat.le_zero.1 hfuel
      rw [chain_of_atEnd hc hzero, chain_of_atEnd hc hzero]
      exact (hoptionally hc).bind fun _ d hd hcd => .pure hd hcd whole
  | succ fuel ih =>
      rcases Nat.eq_zero_or_pos c.remaining with hzero | hpos
      · rw [chain_of_atEnd hc hzero, chain_of_atEnd hc hzero]
        exact (hoptionally hc).bind fun _ d hd hcd => .pure hd hcd whole
      · obtain ⟨fuel', rfl⟩ := Nat.exists_eq_add_one.2 (Nat.lt_of_lt_of_le hpos hfuel')
        rw [chain, chain]
        refine (hoptionally hc).bind fun spelling? d hd hcd => ?_
        cases spelling? with
        | none => exact .pure hd hcd whole
        | some spelling =>
            refine (hoperand d hd (by omega)).bind fun right d' hd' hdd' => ?_
            have hroom := hc.remaining_eq
            have hroom' := hd'.remaining_eq
            exact (ih hd' (by omega) (by omega) (by omega) _ _).imp (by omega)

theorem binaryLevel_alike {tier : Tier} {operand operand' : Rule Expr}
    (hoperand : operand.Alike text n operand') :
    (binaryLevel tier operand).Alike text n (binaryLevel tier operand') := by
  intro c hc hn
  refine (hoperand c hc hn).bind fun first d hd hcd => ?_
  exact (chain_alike hoperand hd (by omega) (Nat.le_refl _) (Nat.le_refl _) _ _).imp hcd

theorem product_alike (hconditional : conditional.Alike text (n + 1) conditional') :
    (product conditional).Alike text n (product conditional') :=
  binaryLevel_alike <| binaryLevel_alike <| binaryLevel_alike <| term_alike hconditional

/-! ## Powers, prefixes and conditionals -/

theorem powerLevel_alike (hconditional : conditional.Alike text (n + 1) conditional')
    (hpower : power.Alike text (n + 1) power') :
    (powerLevel conditional power).Alike text n (powerLevel conditional' power') := by
  intro c hc hn
  refine (product_alike hconditional c hc hn).bind fun base d hd hcd => ?_
  refine (optionally_alike (by decide) (by decide) hd).bind fun caret? d' hd' hdd' => ?_
  cases caret? with
  | none => exact .pure hd' (by omega) _
  | some caret =>
      refine (hpower d' hd' (by omega)).bind fun exponent d'' hd'' hdd'' => ?_
      exact .pure hd'' (by omega) _

theorem prefixedBy_alike (hpower : power.Alike text n power') (op : String) :
    (prefixedBy op power).Alike text n (prefixedBy op power') := by
  intro c hc hn
  refine .ite (fun hprefixed => ?_) fun _ => ?_
  · obtain ⟨hd, hcd⟩ := hc.behind
      ((hc.here.startsWith_iff _).1 (startsWith_of_startsPrefixed hprefixed))
    rw [String.length_toList] at hd hcd
    refine (hpower _ hd (by omega)).bind fun operand d' hd' hdd' => ?_
    exact .pure hd' (by omega) _
  · exact .fail hc (List.cons_ne_nil _ _) (head?_message (head?_message (by decide) _) _)

theorem unaryLevel_alike (hpower : power.Alike text n power') :
    (unaryLevel power).Alike text n (unaryLevel power') :=
  .firstOf (prefixedBy_alike hpower "j") <|
    .cons (prefixedBy_alike hpower "-") <| .cons (hpower.map _) .nil

theorem branches_alike (hconditional : conditional.Alike text n conditional')
    (condition : Expr) : (branches conditional condition).Alike text n
      (branches conditional' condition) := by
  intro c hc hn
  have hcolon {d : Cursor} (hd : d.In text) (hdn : n ≤ d.pos) :=
    word_alike (n := n) (by decide : ":".toList ≠ []) d hd hdn
  refine .ite (fun _ => ?_) fun _ => ?_
  · refine (hcolon hc hn).bind fun _ d hd hcd => ?_
    refine (hconditional d hd (by omega)).bind fun elseBranch d' hd' hdd' => ?_
    exact .pure hd' (by omega) _
  · refine (hconditional c hc hn).bind fun thenBranch d hd hcd => ?_
    refine .ite (fun _ => ?_) fun _ => .pure hd hcd _
    refine (hcolon hd (by omega)).bind fun _ d' hd' hdd' => ?_
    refine (hconditional d' hd' (by omega)).bind fun elseBranch d'' hd'' hdd'' => ?_
    exact .pure hd'' (by omega) _

theorem conditionalLevel_alike (hconditional : conditional.Alike text (n + 1) conditional')
    (hpower : power.Alike text n power') :
    (conditionalLevel conditional power).Alike text n (conditionalLevel conditional' power') := by
  intro c hc hn
  refine (unaryLevel_alike hpower c hc hn).bind fun condition d hd hcd => ?_
  refine .ite (fun _ => ?_) fun _ => .pure hd hcd _
  refine (word_alike (by decide) d hd (by omega : n ≤ d.pos)).bind fun _ d' hd' hdd' => ?_
  exact (branches_alike hconditional condition d' hd' (by omega)).imp (by omega)

end Levels

/-! ## Goals -/

/-- Any room that covers what is left reads the same. -/
theorem goal_alike (fuel fuel' : Nat) (n : Nat) (h : text.length < n + fuel)
    (h' : text.length < n + fuel') (g : Goal) : (goal fuel g).Alike text n (goal fuel' g) := by
  induction fuel generalizing fuel' n g with
  | zero =>
      intro c hc hn
      exact absurd hc.pos_le (by omega)
  | succ fuel ih =>
      cases fuel' with
      | zero =>
          intro c hc hn
          exact absurd hc.pos_le (by omega)
      | succ fuel' =>
          -- the rules inside are only met behind a character, where one turn less suffices
          have hinner (g : Goal) : (goal fuel g).Alike text (n + 1) (goal fuel' g) :=
            ih fuel' (n + 1) (by omega) (by omega) g
          have hpower : (powerLevel (goal fuel .conditional) (goal fuel .power)).Alike text n
              (powerLevel (goal fuel' .conditional) (goal fuel' .power)) :=
            powerLevel_alike (hinner .conditional) (hinner .power)
          cases g with
          | power => exact hpower
          | conditional => exact conditionalLevel_alike (hinner .conditional) hpower

/-- The rule of a goal with room for all that is left; for conditionals this is
`expression`. -/
def ample (g : Goal) : Rule Expr := fun c => goal (c.remaining + 1) g c

theorem goal_alike_ample {fuel : Nat} (h : text.length < n + fuel) (g : Goal) :
    (goal fuel g).Alike text n (ample g) := by
  intro c hc hn
  have hroom := hc.remaining_eq
  exact goal_alike fuel (c.remaining + 1) c.pos (by omega) (by omega) g c hc (Nat.le_refl _)

theorem ample_alike (g : Goal) : (ample g).Alike text n (ample g) := by
  intro c hc hn
  have hroom := hc.remaining_eq
  exact goal_alike_ample (n := c.pos) (by omega) g c hc (Nat.le_refl _)

theorem expression_alike : expression.Alike text n expression := ample_alike .conditional

theorem ample_power {c : Cursor} (hc : c.In text) :
    ample .power c = powerLevel expression (ample .power) c := by
  have hroom := hc.remaining_eq
  have hinner (g : Goal) : (goal c.remaining g).Alike text (c.pos + 1) (ample g) :=
    goal_alike_ample (by omega) g
  exact (powerLevel_alike (hinner .conditional) (hinner .power) c hc (Nat.le_refl _)).same

theorem expression_eq {c : Cursor} (hc : c.In text) :
    expression c = conditionalLevel expression (ample .power) c := by
  have hroom := hc.remaining_eq
  have hinner : (goal c.remaining .conditional).Alike text (c.pos + 1) expression :=
    goal_alike_ample (by omega) .conditional
  have hpower : (goal (c.remaining + 1) .power).Alike text c.pos (ample .power) :=
    goal_alike_ample (by omega) .power
  exact (conditionalLevel_alike hinner hpower c hc (Nat.le_refl _)).same

end Rules

end PolarCalc.Grammar
