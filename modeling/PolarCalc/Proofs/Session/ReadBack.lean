import PolarCalc.Proofs.Evaluation.Reachable
import PolarCalc.Proofs.Evaluation.Strip
import PolarCalc.Proofs.Grammar.Names
import PolarCalc.Proofs.Session.Transition
/-!
# Variables read back

What was assigned to a name is what the name alone on the next line is answered with,
unless the name falls apart into `j` and a number.  The line is then the same whatever
the name is bound to.
-/

namespace PolarCalc

open PolarCalc.Text PolarCalc.Grammar

/-! ## Names that fall apart -/

section FallsApart

variable {k : Category} {e : Expr} {s : List Char}

/-- Below the prefix operators, what begins with a digit and goes on as a name does is a
number. -/
theorem symbols_of_digit (h : Canonical k e) (hu : k ≠ .level .unary)
    (hc : k ≠ .level .conditional) (hs : e.Spells s) (hchars : ∀ c ∈ s, isNameChar c = true)
    (hdigit : ∀ c ∈ s.head?, isAsciiDigit c = true) : e.symbols = [] := by
  have habsent (c : Char) (hc : isNameChar c = false) : c ∉ s := not_mem_of_isNameChar hchars hc
  induction h with
  | @bare level e hne h ih =>
      cases level with
      | conditional => exact absurd rfl hc
      | unary => exact absurd rfl hne
      | power => exact ih nofun nofun hs
      | tier t => cases t <;> exact ih nofun nofun hs
  | plain | prefixed => exact absurd rfl hu
  | ifThen | ifElse | ifThenElse => exact absurd rfl hc
  | power =>
      obtain ⟨left, caret, right, rfl, -, hcaret, -⟩ := hs
      exact absurd (by simp [hcaret.mem]) (habsent '^' (by decide))
  | first => exact (not_spells_binary hs hchars).elim
  | further => exact (not_spells_binary hs hchars).elim
  | parenthesized h =>
      simp only [Expr.Spells, h.isAtom_eq_false, Bool.false_eq_true, if_false] at hs
      obtain ⟨opening, inside, closing, rfl, hopening, -⟩ := hs
      exact absurd (by simp [hopening.mem]) (habsent '(' (by decide))
  | list =>
      obtain ⟨opening, inside, closing, rfl, hopening, -⟩ := hs
      exact absurd (by simp [hopening.mem]) (habsent '[' (by decide))
  | call =>
      obtain ⟨name, opening, inside, closing, rfl, -, hopening, -⟩ := hs
      exact absurd (by simp [hopening.mem]) (habsent '(' (by decide))
  | ident hname =>
      obtain ⟨c, word, hword, hc, -⟩ := hname
      have hlexeme : Lexeme _ s := hs
      rw [hword] at hlexeme
      obtain ⟨rest, rfl⟩ := hlexeme.eq_cons
      rw [isNameStart_of_isAsciiDigit (hdigit c rfl)] at hc
      cases hc
  | integer => rfl
  | number => rfl

theorem symbols_of_splits (h : Canonical (.level .conditional) e) (hs : e.Spells s)
    (hchars : ∀ c ∈ s, isNameChar c = true) (hsplits : Expr.splitsAfterJ s = true) :
    e.symbols = [] := by
  have habsent (c : Char) (hc : isNameChar c = false) : c ∉ s := not_mem_of_isNameChar hchars hc
  cases h with
  | ifThen =>
      obtain ⟨test, mark, yes, rfl, -, hmark, -⟩ := hs
      exact absurd (by simp [hmark.mem]) (habsent '?' (by decide))
  | ifElse =>
      obtain ⟨test, mark, colon, no, rfl, -, hmark, -⟩ := hs
      exact absurd (by simp [hmark.mem]) (habsent '?' (by decide))
  | ifThenElse =>
      obtain ⟨test, mark, yes, colon, no, rfl, -, hmark, -⟩ := hs
      exact absurd (by simp [hmark.mem]) (habsent '?' (by decide))
  | @bare _ inner _ h =>
      have hinner : inner.Spells s := hs
      cases h with
      | bare hne => exact absurd rfl hne
      | plain hkeeps h => exact (not_plain_of_splits h hkeeps hinner hchars hsplits).elim
      | @prefixed op operand hop h =>
          obtain ⟨sign, behind, rfl, hsign, hbehind, -⟩ := hinner
          have hword := hsign.eq_word fun c hc => hchars c (List.mem_append_left _ hc)
          rcases hop with rfl | rfl
          · -- the digit behind the `j` begins the operand
            have hdigit : ∀ c ∈ behind.head?, isAsciiDigit c = true := by
              rw [hword] at hsplits
              intro c hc
              cases behind with
              | nil => cases hc
              | cons d behind =>
                  cases hc
                  exact hsplits
            show operand.symbols = []
            exact symbols_of_digit h nofun nofun hbehind
              (fun c hc => hchars c (List.mem_append_right _ hc)) hdigit
          · exact absurd (by simp [hword]) (habsent '-' (by decide))

end FallsApart

/-! ## The line of a name -/

section Lines

variable {σ : Type} {host : PluginHost σ} {depth : Nat} {name : String} {env env' : Environment}
  {plugins : Option σ}

theorem runLine_answer_of_splits (hname : IsName name.toList)
    (hsplits : Expr.splitsAfterJ name.toList = true) (env env' : Environment) :
    (runLine host depth name env plugins).answer =
      (runLine host depth name env' plugins).answer := by
  cases hread : Statement.parse name with
  | error e => rw [runLine_of_error hread, runLine_of_error hread]
  | ok t =>
      obtain ⟨e, rfl, he, hs⟩ := Statement.express_of_parse_name hname hread
      have hnone := symbols_of_splits he hs hname.isNameChar hsplits
      have heval : eval host depth env e = eval host depth env' e := by
        apply eval_congr (P := fun _ => False) depth
        · exact fun _ _ h => h.elim
        · exact ⟨fun _ h => h.elim, fun _ h => h.elim⟩
        · simp [hnone]
      rw [runLine_of_ok hread, runLine_of_ok hread, run_express_answer, run_express_answer,
        Expr.outcome, Expr.outcome, heval]

theorem runLine_answer_of_bound {v : Value} {shown : String} (hname : IsName name.toList)
    (hkeeps : Expr.splitsAfterJ name.toList = false) (hv : env.vars.get? name = some v)
    (hshown : v.text = .ok shown) :
    (runLine host depth name env plugins).answer = .ok shown := by
  have houtcome : (Expr.ident name).alone.outcome host depth env plugins = .ok v := by
    have heval : eval host depth env (Expr.ident name).alone =
        eval host depth env (.ident name) := by
      simp only [eval_eq_evalWith]
      rfl
    rw [Expr.outcome, heval, eval_ident, hv]
    rfl
  rw [runLine_of_ok (Statement.parse_name hname hkeeps), run_express_answer, houtcome]
  show answerOf (v.text.map id) = .ok shown
  rw [hshown]
  rfl

/-- A report tells what was written, and whether the name existed. -/
theorem assignmentReport_inj {existed existed' : Bool} {shown shown' : String}
    (h : assignmentReport existed name shown = assignmentReport existed' name shown') :
    existed = existed' ∧ shown = shown' := by
  have hadded := says_added_iff (says_assignmentReport existed name shown)
  rw [h, says_added_iff (says_assignmentReport existed' name shown')] at hadded
  obtain rfl : existed = existed' := by
    cases existed <;> cases existed' <;> simp at hadded ⊢
  refine ⟨rfl, ?_⟩
  apply String.toList_inj.1
  have htext := congrArg String.toList h
  cases existed with
  | true =>
      simp only [assignmentReport, if_true, String.toList_append] at htext
      exact List.append_cancel_left htext
  | false =>
      simp only [assignmentReport, Bool.false_eq_true, if_false, String.toList_append] at htext
      exact List.append_cancel_left (List.append_cancel_right htext)

/-- A line that reports an assignment to a name binds the name to a value with the text
reported. -/
theorem bound_of_report {text shown : String} {existed : Bool} (hname : IsName name.toList)
    (h : (runLine host depth ("let " ++ name ++ " = " ++ text) env plugins).answer =
      .ok (assignmentReport existed name shown)) :
    ∃ v, (runLine host depth ("let " ++ name ++ " = " ++ text) env plugins).environment.vars.get?
      name = some v ∧ v.text = .ok shown := by
  have hlaw := runLine_transition h
  have hreport : ¬ ReportsError (assignmentReport existed name shown) :=
    not_reportsError_of_report (says_assignmentReport ..)
  have hrefused : ¬ Refused host depth ("let " ++ name ++ " = " ++ text) env plugins :=
    fun hrefused => hreport (hlaw.reportsError_iff.2 hrefused)
  cases hread : Statement.parse ("let " ++ name ++ " = " ++ text) with
  | error e => exact absurd (.unread hread) hrefused
  | ok t =>
      obtain ⟨head, e⟩ := t
      obtain rfl : head = .assign name := Statement.head_of_assignment hname hread
      obtain ⟨-, v, shown', -, hshown, hvars, htext⟩ := hlaw.assign hread hrefused
      obtain ⟨-, rfl⟩ := assignmentReport_inj htext
      refine ⟨v, ?_, hshown⟩
      rw [hvars, if_pos rfl]

theorem run_assign_integer {text shown : String} {n : Int}
    (hread : IntegerText.read (text.toList.filter (· != '_')) = .ok n)
    (hshown : (Value.ofInt n).text = .ok shown) :
    Statement.run host depth ⟨.assign name, (Expr.integer text).alone⟩ env plugins =
      ⟨.ok (assignmentReport (env.vars.contains name) name shown),
        env.setVariable name (.ofInt n), plugins,
        [.assigned (env.vars.contains name) name shown]⟩ := by
  have heval : eval host depth env (Expr.integer text).alone ⟨plugins, []⟩ =
      (.ok (.ofInt n), ⟨plugins, []⟩) := by
    rw [eval_eq_evalWith]
    show EvalM.ofOutcome (integerValue text) _ = _
    rw [integerValue, hread]
    rfl
  simp only [Statement.run, heval, hshown]
  rfl

end Lines

/-! ## Sessions -/

section Sessions

variable {σ : Type} (host : PluginHost σ) (depth : Nat) {name : String}

/-- In every session the name alone is answered with the text of what was assigned to it
on the line before. -/
def ReadsBack (name : String) : Prop :=
  ∀ (s : Session σ) (text : String) (existed : Bool) (shown : String),
    let assigned := s.run host depth ("let " ++ name ++ " = " ++ text)
    assigned.1.answer = .ok (assignmentReport existed name shown) →
      (assigned.2.run host depth name).1.answer = .ok shown

theorem readsBack_of_keeps (hname : IsName name.toList)
    (hkeeps : Expr.splitsAfterJ name.toList = false) : ReadsBack host depth name := by
  intro s text existed shown assigned h
  obtain ⟨v, hv, hshown⟩ := bound_of_report hname h
  exact runLine_answer_of_bound hname hkeeps hv hshown

theorem not_readsBack_of_splits (hname : IsName name.toList)
    (hsplits : Expr.splitsAfterJ name.toList = true) : ¬ ReadsBack host depth name := by
  intro hback
  have hanswer (text shown : String) (n : Int)
      (hread : Expr.parse text = .ok (Expr.integer text).alone)
      (hvalue : IntegerText.read (text.toList.filter (· != '_')) = .ok n)
      (hshown : (Value.ofInt n).text = .ok shown) :
      (runLine host depth name ((default : Environment).setVariable name (.ofInt n))
        (some host.fresh)).answer = .ok shown := by
    have hnext := hback (Session.start host default) text false shown
    simp only [Session.run, Session.start, runLine_of_ok (Expr.parse_assignment hname hread),
      run_assign_integer hvalue hshown] at hnext
    exact hnext rfl
  have hone := hanswer "1_" "1" 1 (by decide +kernel) (by decide +kernel) (by decide +kernel)
  have htwo := hanswer "2_" "2" 2 (by decide +kernel) (by decide +kernel) (by decide +kernel)
  rw [runLine_answer_of_splits hname hsplits _
    ((default : Environment).setVariable name (.ofInt 2)), htwo] at hone
  exact absurd hone (by decide)

/-- A name is read back unless it is the letter `j` and a digit that it begins with. -/
theorem readsBack_iff (hname : IsName name.toList) :
    ReadsBack host depth name ↔ Expr.splitsAfterJ name.toList = false := by
  constructor
  · intro hback
    by_contra hsplits
    exact not_readsBack_of_splits host depth hname (by simpa using hsplits) hback
  · exact readsBack_of_keeps host depth hname

/-- The letter `j` itself is the prefix where an operand follows, and a name alone. -/
theorem readsBack_iff_j :
    let host : PluginHost Unit := ⟨(), fun _ _ s => (.error .crash, s)⟩
    let assigned := (Session.start host default).run host 0 "let j = [1_, 2_]"
    assigned.1.answer = .ok "Added var 'j' with value [ 1 2 ] to environment." ∧
      IsName "j".toList ∧ ReadsBack host 0 "j" ∧
      (assigned.2.run host 0 "j").1.answer = .ok "[ 1 2 ]" := by
  intro host assigned
  have hname : IsName "j".toList := ⟨'j', [], rfl, by decide, nofun⟩
  have hback : ReadsBack host 0 "j" := (readsBack_iff host 0 hname).2 (by decide)
  have hanswer : assigned.1.answer = .ok "Added var 'j' with value [ 1 2 ] to environment." := by
    decide +kernel
  exact ⟨hanswer, hname, hback, hback _ "[1_, 2_]" false "[ 1 2 ]" hanswer⟩

/-- The name `j2` is read as twice the imaginary unit. -/
theorem not_readsBack_j2 :
    let host : PluginHost Unit := ⟨(), fun _ _ s => (.error .crash, s)⟩
    let assigned := (Session.start host default).run host 0 "let j2 = 5"
    IsName "j2".toList ∧
      assigned.1.answer = .ok "Added var 'j2' with value 5 to environment." ∧
      (assigned.2.run host 0 "j2").1.answer = .ok "0+j2" ∧ ¬ ReadsBack host 0 "j2" := by
  intro host assigned
  have hname : IsName "j2".toList :=
    ⟨'j', ['2'], rfl, by decide, List.forall_mem_singleton.2 (by decide)⟩
  have hassigned : assigned.1.answer = .ok "Added var 'j2' with value 5 to environment." := by
    decide +kernel
  have hanswer : (assigned.2.run host 0 "j2").1.answer = .ok "0+j2" := by decide +kernel
  refine ⟨hname, hassigned, hanswer, fun hback => ?_⟩
  have hfive : (assigned.2.run host 0 "j2").1.answer = .ok "5" :=
    hback (Session.start host default) "5" false "5" hassigned
  rw [hanswer] at hfive
  exact absurd hfive (by decide)

end Sessions

end PolarCalc
