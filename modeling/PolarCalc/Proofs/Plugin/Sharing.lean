import PolarCalc.Plugin.Samples
import PolarCalc.Proofs.Evaluation.Course
import PolarCalc.Proofs.Session.Answer
/-!
# Evaluations that begin without a host

Without a host from the start one is created where it is first asked for, and one
that was created in the body of a function is gone when the function returns.  So
an evaluation cannot be told from one with a host of its own as long as it creates
at most one, and may be once it creates two.
-/

namespace PolarCalc

namespace Course

/-- Is the host asked for, bodies of functions apart? -/
def asks : Course → Bool
  | idle => false
  | ask => true
  | call _ => true
  | within _ => false
  | seq first second => first.asks || second.asks

/-- The number of hosts that are created on the way if there is none. -/
def hosts : Course → Nat
  | idle => 0
  | ask => 1
  | call _ => 1
  | within body => body.hosts
  | seq first second => first.hosts + if first.asks then 0 else second.hosts

theorem hosts_pos {course : Course} (h : course.asks = true) : 0 < course.hosts := by
  induction course with
  | idle | within => cases h
  | ask | call => exact Nat.one_pos
  | seq first second ihfirst ihsecond =>
      rw [hosts]
      cases hfirst : first.asks with
      | true => exact Nat.add_pos_left (ihfirst hfirst) _
      | false =>
          rw [asks, hfirst, Bool.false_or] at h
          exact Nat.add_pos_right _ (ihsecond h)

theorem asks_eq_false {course : Course} (h : course.hosts = 0) : course.asks = false := by
  cases hasks : course.asks with
  | false => rfl
  | true => exact absurd h (Nat.ne_of_gt (hosts_pos hasks))

end Course

namespace PluginHost.Leads

variable {σ : Type} {host : PluginHost σ} {course : Course} {p q : Option σ}

theorem isSome_eq (h : host.Leads course p q) : q.isSome = (p.isSome || course.asks) := by
  induction h with
  | idle p => rw [Course.asks, Bool.or_false]
  | ask p => rw [Course.asks, Bool.or_true, Option.isSome_some]
  | call => rw [Course.asks, Bool.or_true, Option.isSome_some]
  | @within body p q h ih =>
      rw [Course.asks, Bool.or_false]
      cases p with
      | none => rfl
      | some s => exact ih
  | seq _ _ ihfirst ihsecond => rw [ihsecond, ihfirst, Course.asks, Bool.or_assoc]

theorem eq_none (h : host.Leads course none q) (hasks : course.asks = false) : q = none := by
  have hq := h.isSome_eq
  rw [hasks] at hq
  exact Option.not_isSome_iff_eq_none.1 (by simp [hq])

/-- Where no host is created none is needed, and one that is there is not called. -/
theorem unused (h : host.Leads course none q) (hhosts : course.hosts = 0) (s : σ) :
    host.Leads course (some s) (some s) := by
  generalize hp : none = p at h
  induction h with
  | idle => exact .idle (some s)
  | ask | call => cases hhosts
  | within h ih => exact .within (ih hhosts hp)
  | @seq first second p q r hfirst hsecond ihfirst ihsecond =>
      subst hp
      rw [Course.hosts] at hhosts
      have hasks : first.asks = false := Course.asks_eq_false (by omega)
      rw [hasks, if_neg Bool.false_ne_true] at hhosts
      have hq : q = none := hfirst.eq_none hasks
      exact .seq (ihfirst (by omega) rfl) (ihsecond (by omega) hq.symm)

/-- Where at most one host is created, a fresh one from the start does the same. -/
theorem shared (h : host.Leads course none q) (hhosts : course.hosts ≤ 1) :
    ∃ s, host.Leads course (some host.fresh) (some s) ∧ (q = none ∨ q = some s) := by
  generalize hp : none = p at h
  induction h with
  | idle p =>
      subst hp
      exact ⟨host.fresh, .idle _, .inl rfl⟩
  | ask p =>
      subst hp
      exact ⟨host.fresh, .ask _, .inr rfl⟩
  | call hreply =>
      subst hp
      exact ⟨_, .call hreply, .inr rfl⟩
  | within h ih =>
      subst hp
      obtain ⟨s, hs, -⟩ := ih hhosts rfl
      exact ⟨s, .within hs, .inl rfl⟩
  | @seq first second p q r hfirst hsecond ihfirst ihsecond =>
      subst hp
      rw [Course.hosts] at hhosts
      cases hasks : first.asks with
      | true =>
          -- the host that the first part created is there for the second
          obtain ⟨s, hs, rfl | rfl⟩ := ihfirst (by omega) rfl
          · have hq := hfirst.isSome_eq
            rw [hasks] at hq
            cases hq
          · obtain ⟨last, rfl, -⟩ := hsecond.answers
            exact ⟨last, .seq hs hsecond, .inr rfl⟩
      | false =>
          -- of the two parts one creates no host
          have hq : q = none := hfirst.eq_none hasks
          subst hq
          rw [hasks, if_neg Bool.false_ne_true] at hhosts
          obtain ⟨s, hs, -⟩ := ihfirst (by omega) rfl
          obtain ⟨t, ht, hr⟩ := ihsecond (by omega) rfl
          rcases Nat.eq_zero_or_pos first.hosts with hzero | hpos
          · exact ⟨t, .seq (hfirst.unused hzero host.fresh) ht, hr⟩
          · have hzero : second.hosts = 0 := by omega
            have hr : r = none := hsecond.eq_none (Course.asks_eq_false hzero)
            exact ⟨s, .seq hs (hsecond.unused hzero s), .inl hr⟩

theorem of_stateless (h : host.Leads course p q)
    (hhost : ∀ library args s s',
      (host.execute library args s).1 = (host.execute library args s').1) (p' : Option σ) :
    ∃ q', host.Leads course p' q' := by
  induction h generalizing p' with
  | idle => exact ⟨p', .idle p'⟩
  | ask => exact ⟨_, .ask p'⟩
  | call hreply => exact ⟨_, .call ((hhost _ _ _ _).trans hreply)⟩
  | within _ ih =>
      obtain ⟨q', h⟩ := ih p'
      exact ⟨_, .within h⟩
  | seq _ _ ihfirst ihsecond =>
      obtain ⟨q', hfirst⟩ := ihfirst p'
      obtain ⟨r', hsecond⟩ := ihsecond q'
      exact ⟨r', .seq hfirst hsecond⟩

end PluginHost.Leads

section Sharing

variable {σ : Type} {host : PluginHost σ}

theorem Evaluates.outcome_eq {depth : Nat} {env : Environment} {e : Expr} {course : Course}
    {result : Outcome Value} {p q : Option σ} (h : Evaluates depth env e course result)
    (hleads : host.Leads course p q) : e.outcome host depth env p = result := by
  obtain ⟨events, hgoes⟩ := h.goes host hleads []
  rw [Expr.outcome, hgoes]

/-- An evaluation that begins without a host takes one course.  If that creates at most one
host, in the body of a function or outside, it ends as with a fresh host from the start; and
however many it creates if the replies of libraries do not depend on earlier calls. -/
theorem outcome_without_host (host : PluginHost σ) (depth : Nat) (env : Environment) (e : Expr) :
    (∃ course q, Evaluates depth env e course (e.outcome host depth env none) ∧
      host.Leads course none q) ∧
    (∀ course q result, Evaluates depth env e course result → host.Leads course none q →
      result = e.outcome host depth env none ∧
        (course.hosts ≤ 1 → e.outcome host depth env (some host.fresh) = result)) ∧
    ((∀ library args s s', (host.execute library args s).1 = (host.execute library args s').1) →
      e.outcome host depth env (some host.fresh) = e.outcome host depth env none) := by
  obtain ⟨course, q, hcourse, hleads, -⟩ := exists_course host depth env e none []
  refine ⟨⟨course, q, hcourse, hleads⟩, fun course q result hcourse hleads => ?_, fun hhost => ?_⟩
  · refine ⟨(hcourse.outcome_eq hleads).symm, fun hhosts => ?_⟩
    obtain ⟨s, hshared, -⟩ := hleads.shared hhosts
    exact hcourse.outcome_eq hshared
  · obtain ⟨q', hfresh⟩ := hleads.of_stateless hhost (some host.fresh)
    exact hcourse.outcome_eq hfresh

/-- Two calls of a function that calls a library. -/
def twoCalls (library : String) : Environment × Expr :=
  (Environment.setFunction default "f" ⟨[], .call callFunction [.ident library]⟩,
    .binary .sum (.call "f" []) "+" (.call "f" []))

/-- The course of one of these calls. -/
def oneCall (library : String) (reply : Outcome Value) : Course :=
  .seq .idle (.seq .idle (.within (.seq .ask (.seq .idle (.call ⟨library, [], reply⟩)))))

theorem evaluates_oneCall (library : String) (reply : Outcome Value) :
    Evaluates 1 (twoCalls library).1 (.call "f" []) (oneCall library reply) reply := by
  have hlibrary (functions : Bindings UserFunction) :
      Target.find functions callFunction [.ident library] = .library library := by
    rw [Target.find, if_pos rfl]
    rfl
  have hfunction : Target.find (twoCalls library).1.functions "f" [] =
      .user ⟨[], .call callFunction [.ident library]⟩ := by
    have hname : "f" ≠ callFunction ∧ Builtin.ofName? "f" = none := by decide
    rw [Target.find, if_neg hname.1, hname.2]
    rfl
  have hbody (env : Environment) : Evaluates 0 env (.call callFunction [.ident library])
      (.seq .ask (.seq .idle (.call ⟨library, [], reply⟩))) reply := by
    have hproceeds := @Evaluates.proceeds 0 env (.call callFunction [.ident library]) .idle
      (.call ⟨library, [], reply⟩) [] reply
    simp only [Expr.operands, Expr.next, Expr.asksHost, hlibrary] at hproceeds
    exact hproceeds .nil .plugin
  have hproceeds := @Evaluates.proceeds 1 (twoCalls library).1 (.call "f" []) .idle
    (.within (.seq .ask (.seq .idle (.call ⟨library, [], reply⟩)))) [] reply
  simp only [Expr.operands, Expr.next, Expr.asksHost, hfunction] at hproceeds
  exact hproceeds .nil (.enter (hbody _))

/-- A library that packs its arguments cannot tell how many hosts there are, and one that
counts its calls cannot where only one is created. -/
theorem outcome_without_host_pack :
    let packing : PluginHost Unit := ⟨(), fun _ args s => (.ok (.list args), s)⟩
    let counting := Samples.folder.host
    let (env, e) := twoCalls "pack"
    let (env', _) := twoCalls "counter"
    let course := oneCall "counter" (.ok (.ofInt 1))
    ((∀ library args s s',
        (packing.execute library args s).1 = (packing.execute library args s').1) ∧
      e.outcome packing 1 env (some packing.fresh) = e.outcome packing 1 env none) ∧
    Evaluates 1 env' (.call "f" []) course (.ok (.ofInt 1)) ∧
      (∃ q, counting.Leads course none q) ∧ course.hosts ≤ 1 ∧
      Expr.outcome counting 1 env' (some counting.fresh) (.call "f" []) = .ok (.ofInt 1) := by
  intro packing counting
  have hhost (library : String) (args : List Value) (s s' : Unit) :
      (packing.execute library args s).1 = (packing.execute library args s').1 := rfl
  have hevaluates := evaluates_oneCall "counter" (.ok (.ofInt 1))
  have hleads : counting.Leads (oneCall "counter" (.ok (.ofInt 1))) none none :=
    .seq (.idle _) (.seq (.idle _) (.within (.seq (.ask _) (.seq (.idle _) (.call rfl)))))
  have hhosts : (oneCall "counter" (.ok (.ofInt 1))).hosts ≤ 1 := by decide
  exact ⟨⟨hhost, (outcome_without_host packing 1 _ _).2.2 hhost⟩, hevaluates, ⟨none, hleads⟩,
    hhosts, ((outcome_without_host counting 1 _ _).2.1 _ _ _ hevaluates hleads).2 hhosts⟩

/-- A library that counts its calls can: without a host it is loaded for each call. -/
theorem outcome_without_host_counter :
    let host := Samples.folder.host
    let (env, e) := twoCalls "counter"
    (e.outcome host 1 env none).bind Value.text = .ok "2" ∧
      (e.outcome host 1 env (some host.fresh)).bind Value.text = .ok "3" ∧
      e.outcome host 1 env none ≠ e.outcome host 1 env (some host.fresh) := by
  intro host
  simp only
  have halone : ((twoCalls "counter").2.outcome host 1 (twoCalls "counter").1 none).bind
      Value.text = .ok "2" := by
    decide +kernel
  have hshared : ((twoCalls "counter").2.outcome host 1 (twoCalls "counter").1
      (some host.fresh)).bind Value.text = .ok "3" := by
    decide +kernel
  refine ⟨halone, hshared, fun h => ?_⟩
  rw [h, hshared] at halone
  exact absurd halone (by decide)

end Sharing

end PolarCalc
