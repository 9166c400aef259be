import PolarCalc.Proofs.Evaluation.Step
import PolarCalc.Proofs.Plugin.Calls
/-!
# The course of an evaluation

What an evaluation has to do with a host of plugins, and in which order.
`Evaluates` is the order of evaluation without any host: operands from left to
right, then one further step, and nothing behind a failure; whatever a library
may reply is possible.  `PluginHost.Leads` is what a host makes of such a course.
Every evaluation takes a course, and only one that its host leads.
-/

namespace PolarCalc

/-- What happens between an evaluation and the host of plugins. -/
inductive Course where
  | idle
  /-- The host is asked for. -/
  | ask
  | call (c : PluginCall)
  /-- What happens in the body of a user's function. -/
  | within (body : Course)
  | seq (first second : Course)

namespace Course

/-- The calls of libraries, in order. -/
def calls : Course → List PluginCall
  | idle => []
  | ask => []
  | call c => [c]
  | within body => body.calls
  | seq first second => first.calls ++ second.calls

/-- The host is asked for before the arguments of a library are evaluated. -/
def opening (asks : Bool) : Course := if asks then ask else idle

end Course

/-! ## The order of evaluation -/

mutual

/-- The expression is evaluated with this course and this result: its operands come
first, and what follows them only if they have values. -/
inductive Evaluates : Nat → Environment → Expr → Course → Outcome Value → Prop
  | fails {depth : Nat} {env : Environment} {e : Expr} {course : Course} {f : Failure}
      (hitems : EvaluatesItems depth env (e.operands env.functions) course (.error f)) :
      Evaluates depth env e (.seq (.opening (e.asksHost env.functions)) course) (.error f)
  | proceeds {depth : Nat} {env : Environment} {e : Expr} {course last : Course}
      {vs : List Value} {result : Outcome Value}
      (hitems : EvaluatesItems depth env (e.operands env.functions) course (.ok vs))
      (hnext : Proceeds depth env (e.next env vs) last result) :
      Evaluates depth env e (.seq (.opening (e.asksHost env.functions)) (.seq course last)) result

/-- Expressions are evaluated from left to right, up to the first that fails. -/
inductive EvaluatesItems :
    Nat → Environment → List Expr → Course → Outcome (List Value) → Prop
  | nil {depth : Nat} {env : Environment} : EvaluatesItems depth env [] .idle (.ok [])
  | fails {depth : Nat} {env : Environment} {item : Expr} {items : List Expr} {course : Course}
      {f : Failure} (hitem : Evaluates depth env item course (.error f)) :
      EvaluatesItems depth env (item :: items) course (.error f)
  | cons {depth : Nat} {env : Environment} {item : Expr} {items : List Expr}
      {course rest : Course} {v : Value} {result : Outcome (List Value)}
      (hitem : Evaluates depth env item course (.ok v))
      (hitems : EvaluatesItems depth env items rest result) :
      EvaluatesItems depth env (item :: items) (.seq course rest) (result.map (v :: ·))

/-- What follows the operands is carried out: at most one branch, at most one call of
a library, at most one body. -/
inductive Proceeds : Nat → Environment → Next → Course → Outcome Value → Prop
  | finish {depth : Nat} {env : Environment} {result : Outcome Value} :
      Proceeds depth env (.finish result) .idle result
  | branch {depth : Nat} {env : Environment} {e : Expr} {course : Course} {result : Outcome Value}
      (h : Evaluates depth env e course result) : Proceeds depth env (.branch e) course result
  | plugin {depth : Nat} {env : Environment} {library : String} {args : List Value}
      {reply : Outcome Value} :
      Proceeds depth env (.plugin library args) (.call ⟨library, args, reply⟩) reply
  | enter {depth : Nat} {env : Environment} {event : Event} {bindings : Bindings Value}
      {body : Expr} {course : Course} {result : Outcome Value}
      (h : Evaluates depth (env.extended bindings) body course result) :
      Proceeds (depth + 1) env (.enter event bindings body) (.within course) result
  | tooDeep {env : Environment} {event : Event} {bindings : Bindings Value} {body : Expr} :
      Proceeds 0 env (.enter event bindings body) .idle (.error .outOfDepth)

end

/-! ## What a host makes of a course -/

/-- A host replies as the course says and goes from the one state to the other; where
there is none, one is created when it is asked for, and it goes with the body of the
function in which that happened. -/
inductive PluginHost.Leads {σ : Type} (host : PluginHost σ) :
    Course → Option σ → Option σ → Prop
  | idle (p : Option σ) : Leads host .idle p p
  | ask (p : Option σ) : Leads host .ask p (some (p.getD host.fresh))
  | call {p : Option σ} {c : PluginCall}
      (hreply : (host.execute c.library c.args (p.getD host.fresh)).1 = c.reply) :
      Leads host (.call c) p (some (host.execute c.library c.args (p.getD host.fresh)).2)
  | within {body : Course} {p q : Option σ} (h : Leads host body p q) :
      Leads host (.within body) p (if p.isSome then q else none)
  | seq {first second : Course} {p q r : Option σ} (hfirst : Leads host first p q)
      (hsecond : Leads host second q r) : Leads host (.seq first second) p r

section Host

variable {σ : Type} {host : PluginHost σ}

theorem PluginHost.Leads.answers {course : Course} {s : σ} {q : Option σ}
    (h : host.Leads course (some s) q) :
    ∃ last, q = some last ∧ host.Answers s course.calls last := by
  generalize hp : some s = p at h
  induction h generalizing s with
  | idle p => exact ⟨s, hp.symm, .nil s⟩
  | ask p =>
      subst hp
      exact ⟨s, rfl, .nil s⟩
  | call hreply =>
      subst hp
      exact ⟨_, rfl, .cons hreply (.nil _)⟩
  | within h ih =>
      subst hp
      exact ih rfl
  | seq hfirst hsecond ihfirst ihsecond =>
      obtain ⟨middle, hmiddle, hfront⟩ := ihfirst hp
      obtain ⟨last, hlast, hback⟩ := ihsecond hmiddle.symm
      exact ⟨last, hlast, hfront.append hback⟩

theorem PluginHost.leads_opening (host : PluginHost σ) (asks : Bool) (p : Option σ) :
    host.Leads (.opening asks) p (if asks then some (p.getD host.fresh) else p) := by
  cases asks with
  | false => exact .idle p
  | true => exact .ask p

theorem PluginHost.Leads.opening_eq {asks : Bool} {p q : Option σ}
    (h : host.Leads (.opening asks) p q) : q = if asks then some (p.getD host.fresh) else p := by
  cases asks with
  | false => cases h; rfl
  | true => cases h; rfl

end Host

/-! ## Computations and hosts -/

/-- From the one state of the host to the other, with this result and whatever events. -/
def EvalM.Goes {σ α : Type} (x : EvalM σ α) (p : Option σ) (result : Outcome α) (q : Option σ) :
    Prop :=
  ∀ trace, ∃ events, x ⟨p, trace⟩ = (result, ⟨q, events⟩)

namespace EvalM

variable {σ α β : Type} {x : EvalM σ α} {k : α → EvalM σ β} {p q r : Option σ}

theorem Goes.bind {a : α} {result : Outcome β} (hx : x.Goes p (.ok a) q)
    (hk : (k a).Goes q result r) : (x >>= k).Goes p result r := by
  intro trace
  obtain ⟨events, hx⟩ := hx trace
  rw [bind_run, hx]
  exact hk events

theorem Goes.bind_error {f : Failure} (hx : x.Goes p (.error f) q) :
    (x >>= k).Goes p (.error f) q := by
  intro trace
  obtain ⟨events, hx⟩ := hx trace
  rw [bind_run, hx]
  exact ⟨events, rfl⟩

theorem Goes.map {result : Outcome α} (hx : x.Goes p result q) (g : α → β) :
    (x >>= fun a => pure (g a)).Goes p (result.map g) q := by
  cases result with
  | error f => exact hx.bind_error
  | ok a => exact hx.bind fun trace => ⟨trace, rfl⟩

theorem goes_ofOutcome (result : Outcome α) (p : Option σ) :
    (ofOutcome result : EvalM σ α).Goes p result p := by
  intro trace
  exact ⟨trace, ofOutcome_run result _⟩

theorem goes_note (event : Event) (p : Option σ) : (note event).Goes p (.ok ()) p := by
  intro trace
  exact ⟨event :: trace, rfl⟩

theorem goes_prepare (host : PluginHost σ) (asks : Bool) (p : Option σ) :
    (prepare host asks).Goes p (.ok ()) (if asks then some (p.getD host.fresh) else p) := by
  intro trace
  cases asks with
  | false => exact ⟨trace, rfl⟩
  | true =>
      refine ⟨trace, ?_⟩
      rw [prepare, if_pos rfl, bind_run, hostState_run]
      rfl

theorem goes_executePlugin (host : PluginHost σ) (library : String) (args : List Value)
    (p : Option σ) :
    (executePlugin host library args).Goes p
      (host.execute library args (p.getD host.fresh)).1
      (some (host.execute library args (p.getD host.fresh)).2) := by
  intro trace
  exact ⟨trace, executePlugin_run host library args _⟩

theorem Goes.sharingHost {result : Outcome α} (hx : x.Goes p result q) :
    (sharingHost x).Goes p result (if p.isSome then q else none) := by
  intro trace
  obtain ⟨events, hx⟩ := hx trace
  refine ⟨events, ?_⟩
  rw [sharingHost_run, hx]
  cases p <;> rfl

end EvalM

section Host

variable {σ : Type} (host : PluginHost σ)

/-! ## Every course that a host leads is the one that is taken -/

-- The recursion is on the derivation: each part of an evaluation has a derivation of its own,
-- and its share of the host's way.
mutual

theorem Evaluates.goes {p q : Option σ} :
    ∀ {depth : Nat} {env : Environment} {e : Expr} {course : Course} {result : Outcome Value},
      Evaluates depth env e course result → host.Leads course p q →
        (eval host depth env e).Goes p result q
  | depth, env, e, _, _, .fails hitems, .seq hopening hleads => by
      rw [eval_step]
      cases hopening.opening_eq
      exact (EvalM.goes_prepare host _ p).bind (hitems.goes hleads).bind_error
  | depth, env, e, _, _, .proceeds hitems hnext, .seq hopening (.seq hleads hlast) => by
      rw [eval_step]
      cases hopening.opening_eq
      exact (EvalM.goes_prepare host _ p).bind
        ((hitems.goes hleads).bind (hnext.goes hlast))

theorem EvaluatesItems.goes {p q : Option σ} :
    ∀ {depth : Nat} {env : Environment} {items : List Expr} {course : Course}
      {result : Outcome (List Value)},
      EvaluatesItems depth env items course result → host.Leads course p q →
        (evalItems host (evalBody host depth) env items).Goes p result q
  | _, _, _, _, _, .nil, .idle _ => fun trace => ⟨trace, rfl⟩
  | _, _, _, _, _, .fails hitem, hleads => by
      rw [evalItems, ← eval_eq_evalWith]
      exact (hitem.goes hleads).bind_error
  | _, _, _, _, _, .cons hitem hitems, .seq hfirst hsecond => by
      rw [evalItems, ← eval_eq_evalWith]
      exact (hitem.goes hfirst).bind ((hitems.goes hsecond).map _)

theorem Proceeds.goes {p q : Option σ} :
    ∀ {depth : Nat} {env : Environment} {next : Next} {course : Course} {result : Outcome Value},
      Proceeds depth env next course result → host.Leads course p q →
        (next.run host (evalBody host depth) env).Goes p result q
  | _, _, _, _, _, .finish, .idle p => EvalM.goes_ofOutcome _ p
  | _, _, _, _, _, .branch h, hleads => by
      rw [Next.run, ← eval_eq_evalWith]
      exact h.goes hleads
  | _, _, .plugin library args, _, _, .plugin, .call hreply => by
      have hcall := EvalM.goes_executePlugin host library args p
      simp only at hreply
      rw [hreply] at hcall
      exact hcall
  | _, _, _, _, _, .enter h, .within hleads => by
      rw [Next.run]
      exact (EvalM.goes_note _ p).bind (h.goes hleads).sharingHost
  | _, _, _, _, _, .tooDeep, .idle p => by
      rw [Next.run]
      exact (EvalM.goes_note _ p).bind fun trace => ⟨trace, by cases p <;> rfl⟩

end

/-! ## Some course is taken -/

/-- From every state the host leads a course of this kind. -/
def PluginHost.Covers {α : Type} (kind : Course → Outcome α → Prop) : Prop :=
  ∀ p, ∃ course result q, kind course result ∧ host.Leads course p q

variable {host} {depth : Nat} {env : Environment}

theorem covers_items {items : List Expr}
    (h : ∀ x ∈ items, host.Covers (Evaluates depth env x)) :
    host.Covers (EvaluatesItems depth env items) := by
  induction items with
  | nil => exact fun p => ⟨.idle, .ok [], p, .nil, .idle p⟩
  | cons item items ih =>
      intro p
      obtain ⟨course, result, q, hitem, hleads⟩ := h item List.mem_cons_self p
      cases result with
      | error f => exact ⟨course, .error f, q, .fails hitem, hleads⟩
      | ok v =>
          have hrest := ih fun x hx => h x (List.mem_cons_of_mem _ hx)
          obtain ⟨rest, values, r, hitems, hlast⟩ := hrest q
          exact ⟨.seq course rest, _, r, .cons hitem hitems, .seq hleads hlast⟩

theorem covers_next {next : Next}
    (hbranch : ∀ b, next = .branch b → host.Covers (Evaluates depth env b))
    (hbody : ∀ d, depth = d + 1 → ∀ env e, host.Covers (Evaluates d env e)) :
    host.Covers (Proceeds depth env next) := by
  intro p
  cases next with
  | finish result => exact ⟨.idle, result, p, .finish, .idle p⟩
  | branch b =>
      obtain ⟨course, result, q, h, hleads⟩ := hbranch b rfl p
      exact ⟨course, result, q, .branch h, hleads⟩
  | plugin library args =>
      let reply := (host.execute library args (p.getD host.fresh)).1
      exact ⟨.call ⟨library, args, reply⟩, reply, _, .plugin, .call rfl⟩
  | enter event bindings body =>
      cases depth with
      | zero => exact ⟨.idle, .error .outOfDepth, p, .tooDeep, .idle p⟩
      | succ d =>
          obtain ⟨course, result, q, h, hleads⟩ := hbody d rfl (env.extended bindings) body p
          exact ⟨.within course, result, _, .enter h, .within hleads⟩

theorem covers_of_bodies (hbody : ∀ d, depth = d + 1 → ∀ env e, host.Covers (Evaluates d env e))
    (env : Environment) (e : Expr) : host.Covers (Evaluates depth env e) := by
  induction e using Expr.induct_step env with
  | step e operands_ih branches_ih =>
  -- the host is asked for first, so that the operands begin where that leaves it
  intro p
  have hopening := host.leads_opening (e.asksHost env.functions) p
  obtain ⟨course, values, q, hitems, hleads⟩ := covers_items operands_ih
    (if e.asksHost env.functions then some (p.getD host.fresh) else p)
  cases values with
  | error f => exact ⟨_, .error f, q, .fails hitems, .seq hopening hleads⟩
  | ok vs =>
      obtain ⟨last, result, r, hnext, hlast⟩ := covers_next (branches_ih vs) hbody q
      exact ⟨_, result, r, .proceeds hitems hnext, .seq hopening (.seq hleads hlast)⟩

variable (host)

theorem covers_evaluates (depth : Nat) (env : Environment) (e : Expr) :
    host.Covers (Evaluates depth env e) := by
  induction depth generalizing env e with
  | zero => exact covers_of_bodies (fun d h => absurd h (Nat.zero_ne_add_one d)) env e
  | succ depth ih =>
      refine covers_of_bodies (fun d h => ?_) env e
      cases h
      exact ih

/-- Every evaluation takes a course that its host leads, with the result of that course. -/
theorem exists_course (depth : Nat) (env : Environment) (e : Expr) (p : Option σ)
    (trace : List Event) :
    ∃ course q, Evaluates depth env e course (eval host depth env e ⟨p, trace⟩).1 ∧
      host.Leads course p q ∧ (eval host depth env e ⟨p, trace⟩).2.plugins = q := by
  obtain ⟨course, result, q, hevaluates, hleads⟩ := covers_evaluates host depth env e p
  obtain ⟨events, hgoes⟩ := hevaluates.goes host hleads trace
  rw [hgoes]
  exact ⟨course, q, hevaluates, hleads, rfl⟩

end Host

end PolarCalc
