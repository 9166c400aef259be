import PolarCalc.Proofs.Session.Invariant
/-!
# No impossible values

The impossible value stands for an operation that has none.  The grammar knows no
operator without an operation, so that no session comes to it unless it started
with it or a plugin replied with it.
-/

namespace PolarCalc

open Value (Possible)

theorem meets_possible {σ : Type} {host : PluginHost σ}
    (hhost : ∀ library args state v, (∀ arg ∈ args, Possible arg) →
      (host.execute library args state).1 = .ok v → v.Possible) : host.Meets .possible := by
  intro library args state hargs
  cases hreply : (host.execute library args state).1 with
  | ok v => exact .ok (hhost library args state v hargs hreply)
  | error f => exact .error trivial

/-- Whatever lines a session runs, and whether or not they are answered, no
variable holds an impossible leaf, and no expression that is evaluated next comes
to one. -/
theorem after_possible {σ : Type} (host : PluginHost σ) (depth : Nat) (start : Session σ)
    (hvars : ∀ name v, start.environment.vars.get? name = some v → v.Possible)
    (hbodies : ∀ name f, start.environment.functions.get? name = some f → f.body.IsRead)
    (hhost : ∀ library args state v, (∀ arg ∈ args, Possible arg) →
      (host.execute library args state).1 = .ok v → v.Possible)
    (lines : List String) :
    (∀ name v, (start.after host depth lines).environment.vars.get? name = some v → v.Possible) ∧
      ∀ line e v, Statement.parse line = .ok ⟨.express, e⟩ →
        e.outcome host depth (start.after host depth lines).environment
          (some (start.after host depth lines).plugins) = .ok v → v.Possible := by
  have hstart : start.environment.Meets .possible :=
    ⟨hvars _ _, fun hf => (hbodies _ _ hf).canonical⟩
  have hmeets := after_meets (meets_possible hhost) depth lines hstart
  refine ⟨fun name v hv => hmeets.vars hv, fun line e v hread hv => ?_⟩
  have hcanonical := (Grammar.parse_sound hread).1.2
  have hwithin := outcome_within (meets_possible hhost) hmeets depth
    (some (start.after host depth lines).plugins) hcanonical
  rw [hv] at hwithin
  exact hwithin.of_ok

/-- A session with a library that replies with the list of its arguments. -/
theorem after_possible_lists :
    let host : PluginHost Unit := ⟨(), fun _ args s => (.ok (.list args), s)⟩
    let start := Session.start host default
    let lines := ["\\f(x) -> [x, 2_] > call(pack, 1_, x)", "let a = f([1_, j3])"]
    (∀ name v, start.environment.vars.get? name = some v → v.Possible) ∧
      (∀ name f, start.environment.functions.get? name = some f → f.body.IsRead) ∧
      (∀ library args state v, (∀ arg ∈ args, Possible arg) →
        (host.execute library args state).1 = .ok v → v.Possible) ∧
      ∃ v, (start.after host 1 lines).environment.vars.get? "a" = some v ∧ v.Possible := by
  intro host start lines
  have hvars : ∀ name v, start.environment.vars.get? name = some v → v.Possible := nofun
  have hbodies : ∀ name f, start.environment.functions.get? name = some f → f.body.IsRead := nofun
  have hhost : ∀ library args state v, (∀ arg ∈ args, Possible arg) →
      (host.execute library args state).1 = .ok v → v.Possible := by
    rintro library args state _ hargs ⟨⟩
    exact .list hargs
  have hbound : ((start.after host 1 lines).environment.vars.get? "a").isSome = true := by
    decide +kernel
  obtain ⟨v, hv⟩ := Option.isSome_iff_exists.1 hbound
  have hpossible := (after_possible host 1 start hvars hbodies hhost lines).1 "a" v hv
  exact ⟨hvars, hbodies, hhost, v, hv, hpossible⟩

end PolarCalc
