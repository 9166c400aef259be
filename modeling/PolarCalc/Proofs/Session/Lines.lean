import PolarCalc.CommandLine
import PolarCalc.Proofs.Grammar.Spacing
/-!
# Lines with blanks around and inside them

The amount and the kind of blanks in a line does not matter to what it is read as.
An interactive session, which takes the blanks off both ends of a line, therefore
answers every line that is read as a call for that line alone does, except for the
words that end it.
-/

namespace PolarCalc

open PolarCalc.Text

namespace Statement

theorem parse_empty_ne (t : Statement) : parse "" ≠ .ok t := by
  intro h
  obtain ⟨ht, blanks, head, body, htext, -, -, hbody⟩ := Grammar.parse_sound h
  obtain ⟨c, more, rfl, -⟩ := expression_flush ht.2 hbody
  simp at htext

end Statement

namespace CommandLine

variable {line : String} {t : Statement}

theorem react_of_parse (h : Statement.parse line = .ok t) (hexit : trimmed line ∉ exitWords) :
    react line.toList = .run (trimmed line) := by
  have hne : trimmed line ≠ "" := by
    intro hempty
    have htrimmed := (Statement.parse_trimmed line t).2 h
    rw [hempty] at htrimmed
    exact Statement.parse_empty_ne t htrimmed
  rw [react, ← trimmed, if_neg hne, if_neg (by simpa using hexit)]

theorem run_trimmed {σ : Type} (host : PluginHost σ) (depth : Nat) (session : Session σ)
    (h : Statement.parse line = .ok t) :
    session.run host depth (trimmed line) = session.run host depth line := by
  have htrimmed := (Statement.parse_trimmed line t).2 h
  simp only [Session.run, runLine, h, htrimmed]

/-- A session that reads one line prints between its prompts what a call for it prints. -/
theorem transcript_of_parse {σ : Type} (host : PluginHost σ) {args : List String} {debug : Bool}
    (input : String) (h : Statement.parse line = .ok t) (hexit : trimmed line ∉ exitWords)
    (hargs : parse args = .run (some line) debug) :
    transcript host [line.toList] (Session.start host default) =
      (run host args input).map fun printed =>
        promptText ++ printed.2 ++ (promptText ++ "\n") := by
  rw [transcript, react_of_parse h hexit, run, hargs]
  simp only [run_trimmed host callDepth _ h]
  cases ((Session.start host default).run host callDepth line).1.answer with
  | error f => rfl
  | ok answer =>
      refine congrArg Except.ok ?_
      simp only [String.append_assoc]

/-- Other runs of blanks inside a line, and any blanks around it, leave it read as the same
statement or refused; and a session, which strips its lines, runs every line that is read as
a call for that line does, unless it ends at the word. -/
theorem parse_spacing :
    (∀ (front blanks blanks' back : String) (t : Statement), blanks ≠ "" → blanks' ≠ "" →
      (∀ c ∈ blanks.toList, isBlank c = true) → (∀ c ∈ blanks'.toList, isBlank c = true) →
      (Statement.parse (front ++ blanks ++ back) = .ok t ↔
        Statement.parse (front ++ blanks' ++ back) = .ok t)) ∧
    (∀ (blanks text blanks' : String) (t : Statement),
      (∀ c ∈ blanks.toList, isBlank c = true) → (∀ c ∈ blanks'.toList, isBlank c = true) →
      (Statement.parse (blanks ++ text ++ blanks') = .ok t ↔ Statement.parse text = .ok t)) ∧
    ∀ (line : String) (t : Statement), Statement.parse line = .ok t →
      trimmed line ∉ exitWords → react line.toList = .run (trimmed line) ∧
      ∀ (σ : Type) (host : PluginHost σ),
        (∀ depth (session : Session σ),
          session.run host depth (trimmed line) = session.run host depth line) ∧
        ∀ args debug input, parse args = .run (some line) debug →
          transcript host [line.toList] (Session.start host default) =
            (run host args input).map fun printed =>
              promptText ++ printed.2 ++ (promptText ++ "\n") := by
  refine ⟨fun front blanks blanks' back t hne hne' hblanks hblanks' => ?_,
    fun blanks text blanks' t hblanks hblanks' => ?_, fun line t h hexit => ?_⟩
  · refine Statement.parse_of_sameWords ?_ t
    simp only [String.toList_append]
    exact .of_run (by simpa using hne) (by simpa using hne') hblanks hblanks'
  · refine Statement.parse_of_sameWords ?_ t
    simp only [String.toList_append]
    exact .of_ends text.toList hblanks hblanks'
  · exact ⟨react_of_parse h hexit, fun σ host => ⟨fun depth session =>
      run_trimmed host depth session h, fun args debug input hargs =>
      transcript_of_parse host input h hexit hargs⟩⟩

theorem parse_spacing_let :
    (∃ t, Statement.parse ("let" ++ "\t\u3000" ++ "x=1") = .ok t) ∧
      react "\tlet x=1 ".toList = .run (trimmed "\tlet x=1 ") := by
  have hlet : Statement.parse ("let" ++ " " ++ "x=1") = .ok ⟨.assign "x", .bare .conditional
      (.bare .unary (.bare .power (.bare (.tier .product) (.bare (.tier .sum)
        (.bare (.tier .relational) (.term (.number "1")))))))⟩ := by
    decide +kernel
  have hblank {text : String} (h : text.toList.all isBlank = true) :
      ∀ c ∈ text.toList, isBlank c = true := List.all_eq_true.1 h
  obtain ⟨hruns, hends, hsession⟩ := parse_spacing
  have hspaced := (hruns "let" "\t\u3000" " " "x=1" _ (by decide) (by decide)
    (hblank (by decide)) (hblank (by decide))).2 hlet
  have hline := (hends "\t" ("let" ++ " " ++ "x=1") " " _ (hblank (by decide))
    (hblank (by decide))).2 hlet
  exact ⟨⟨_, hspaced⟩, (hsession "\tlet x=1 " _ hline (by decide +kernel)).1⟩

/-- A session ends at the line `exit`, which a call reads as a name and answers. -/
theorem not_transcript_of_exitWord :
    ¬ ∀ line t args debug input, Statement.parse line = .ok t →
      parse args = .run (some line) debug →
      transcript Samples.folder.host [line.toList] (Session.start Samples.folder.host default) =
        (run Samples.folder.host args input).map fun printed =>
          promptText ++ printed.2 ++ (promptText ++ "\n") := by
  intro h
  have hagree := h "exit" ⟨.express, .bare .conditional (.bare .unary (.bare .power
    (.bare (.tier .product) (.bare (.tier .sum) (.bare (.tier .relational)
      (.term (.ident "exit")))))))⟩ ["-e", "exit"] false "" (by decide +kernel) (by decide +kernel)
  exact absurd hagree (by decide +kernel)

end CommandLine

end PolarCalc
