import PolarCalc.Plugin.Samples
import PolarCalc.Proofs.Evaluation.Course
import PolarCalc.Proofs.Session.Invariant
import PolarCalc.Proofs.Session.Transition
/-!
# Calls of libraries over a session

A session keeps one host from its start to its end.  The calls that its lines
make, each line in the order of its evaluation and up to its first failure, reach
that host one after the other, and nothing else changes it.
-/

namespace PolarCalc

/-- The calls that a line makes: none unless it evaluates an expression, and then those of
the course that the evaluation takes to its result. -/
inductive LineCalls {σ : Type} (host : PluginHost σ) (depth : Nat) (line : String)
    (env : Environment) (plugins : Option σ) : List PluginCall → Prop
  | unread {e : SyntaxError} (h : Statement.parse line = .error e) :
      LineCalls host depth line env plugins []
  | unevaluated {s : Statement} (h : Statement.parse line = .ok s)
      (hhead : s.head.evaluates = false) : LineCalls host depth line env plugins []
  | evaluated {s : Statement} {course : Course} (h : Statement.parse line = .ok s)
      (hhead : s.head.evaluates = true)
      (hcourse : Evaluates depth env s.body course (s.body.outcome host depth env plugins)) :
      LineCalls host depth line env plugins course.calls

/-- The calls that the lines of a session make, one line after the other. -/
inductive Session.MakesCalls {σ : Type} (host : PluginHost σ) (depth : Nat) :
    Session σ → List String → List PluginCall → Prop
  | nil (s : Session σ) : MakesCalls host depth s [] []
  | cons {s : Session σ} {line : String} {lines : List String} {calls rest : List PluginCall}
      (hline : LineCalls host depth line s.environment (some s.plugins) calls)
      (hlines : MakesCalls host depth (s.run host depth line).2 lines rest) :
      MakesCalls host depth s (line :: lines) (calls ++ rest)

section Session

variable {σ : Type} (host : PluginHost σ) (depth : Nat)

theorem run_plugins (s : Statement) (env : Environment) (plugins : Option σ) :
    (s.run host depth env plugins).plugins =
      if s.head.evaluates then (eval host depth env s.body ⟨plugins, []⟩).2.plugins
      else plugins := by
  obtain ⟨head, body⟩ := s
  cases head with
  | define name params => rfl
  | express => rfl
  | assign name =>
      simp only [Statement.run, Head.evaluates, if_true]
      cases eval host depth env body ⟨plugins, []⟩ with
      | mk result m =>
          cases result with
          | error f => rfl
          | ok v =>
              simp only
              cases v.text <;> rfl

/-- A line leaves its host as its calls do, whatever the line is answered with. -/
theorem exists_lineCalls (line : String) (s : Session σ) :
    ∃ calls, LineCalls host depth line s.environment (some s.plugins) calls ∧
      host.Answers s.plugins calls (s.run host depth line).2.plugins := by
  rw [Session.run]
  cases hread : Statement.parse line with
  | error e =>
      rw [runLine_of_error hread]
      exact ⟨[], .unread hread, .nil _⟩
  | ok statement =>
      rw [runLine_of_ok hread, run_plugins]
      cases hhead : statement.head.evaluates with
      | false => exact ⟨[], .unevaluated hread hhead, .nil _⟩
      | true =>
          obtain ⟨course, q, hcourse, hleads, hq⟩ :=
            exists_course host depth s.environment statement.body (some s.plugins) []
          obtain ⟨last, rfl, hanswers⟩ := hleads.answers
          refine ⟨course.calls, .evaluated hread hhead hcourse, ?_⟩
          rw [if_pos rfl, hq]
          exact hanswers

theorem exists_makesCalls (lines : List String) (s : Session σ) :
    ∃ calls, s.MakesCalls host depth lines calls ∧
      host.Answers s.plugins calls (s.after host depth lines).plugins := by
  induction lines generalizing s with
  | nil => exact ⟨[], .nil s, .nil s.plugins⟩
  | cons line lines ih =>
      obtain ⟨calls, hline, hanswers⟩ := exists_lineCalls host depth line s
      obtain ⟨rest, hlines, hrest⟩ := ih (s.run host depth line).2
      exact ⟨calls ++ rest, .cons hline hlines, hanswers.append hrest⟩

end Session

/-- Over a session with the host of a folder the calls of all lines, those of lines that
failed included, are answered in order by the one host, which loads no library twice; and a
library that counts its calls replies to them with 1, 2, 3 and so on. -/
theorem calls_of_session {μ : Type} (folder : Folder μ) (depth : Nat) (env : Environment)
    (lines : List String) :
    let start := Session.start folder.host env
    let last := start.after folder.host depth lines
    ∃ calls, start.MakesCalls folder.host depth lines calls ∧
      folder.host.Answers start.plugins calls last.plugins ∧
      last.plugins.record.Nodup ∧
      ∀ name count,
        (∀ library l, folder.resolve? library = some l → l.name = name → l.Counts count) →
          (calls.filter (·.reaches folder name)).map (·.reply) =
            (List.range' 1 (calls.filter (·.reaches folder name)).length).map
              fun n => .ok (.ofInt n) := by
  intro start last
  obtain ⟨calls, hmakes, hanswers⟩ := exists_makesCalls folder.host depth lines start
  have hsound : last.plugins.Sound := hanswers.sound ModuleCache.sound_empty
  exact ⟨calls, hmakes, hanswers, hsound.nodup, fun name count hcounts => hanswers.counts hcounts⟩

/-- The sample library that counts, in a session with a line that fails behind two calls. -/
theorem calls_of_session_counter :
    let start := Session.start Samples.folder.host default
    let lines := ["\\f() -> call(counter) * call(counter)", "f() + missing", "call(counter)"]
    let reached := fun calls : List PluginCall => calls.filter (·.reaches Samples.folder "counter")
    ((start.after Samples.folder.host 1 (lines.take 2)).run Samples.folder.host 1
        "call(counter)").1.answer = .ok "3" ∧
      (∀ library l, Samples.folder.resolve? library = some l → l.name = "counter" → l.Counts id) ∧
      ∃ calls, start.MakesCalls Samples.folder.host 1 lines calls ∧
        (reached calls).map (·.reply) =
          (List.range' 1 (reached calls).length).map fun n => .ok (.ofInt n) := by
  intro start lines reached
  have hcounts (library : String) (l : Library Nat)
      (hl : Samples.folder.resolve? library = some l) (hname : l.name = "counter") :
      l.Counts id := by
    rw [Samples.folder, Folder.resolve?, Option.bind_some, Folder.find?] at hl
    split at hl
    · cases hl
    · have hmem : l ∈ Samples.libraries := List.mem_of_find?_eq_some hl
      obtain rfl : l = Samples.counter := by
        simp only [Samples.libraries, List.mem_cons, List.not_mem_nil, or_false] at hmem
        rcases hmem with rfl | rfl | rfl | rfl | rfl | rfl | rfl | rfl | rfl | rfl | rfl | rfl | rfl
        all_goals first | rfl | exact absurd hname (by decide)
      exact ⟨⟨0, rfl, rfl⟩, fun m => ⟨_, rfl, fun args => ⟨rfl, rfl⟩⟩⟩
  obtain ⟨calls, hmakes, -, -, hreplies⟩ := calls_of_session Samples.folder 1 default lines
  exact ⟨by decide +kernel, hcounts, calls, hmakes, hreplies "counter" id hcounts⟩

end PolarCalc
