import PolarCalc.Plugin.Folder
/-!
# Calls that a host answers

A host answers calls one after the other, and goes on from where the call before
left it.  The host of a folder loads no library twice, and hands each call of a
library to the module that was loaded, so that a library which counts its calls
replies with 1, 2, 3 and so on.
-/

namespace PolarCalc

/-- A call of a library with the reply that it got. -/
structure PluginCall where
  library : String
  args : List Value
  reply : Outcome Value

/-- The host answers the calls in this order, each of them once. -/
inductive PluginHost.Answers {σ : Type} (host : PluginHost σ) : σ → List PluginCall → σ → Prop
  | nil (s : σ) : Answers host s [] s
  | cons {s last : σ} {c : PluginCall} {calls : List PluginCall}
      (hreply : (host.execute c.library c.args s).1 = c.reply)
      (h : Answers host (host.execute c.library c.args s).2 calls last) :
      Answers host s (c :: calls) last

namespace PluginHost.Answers

variable {σ : Type} {host : PluginHost σ} {s middle last : σ} {front back calls : List PluginCall}

theorem append (hfront : Answers host s front middle) (hback : Answers host middle back last) :
    Answers host s (front ++ back) last := by
  induction hfront with
  | nil => exact hback
  | cons hreply _ ih => exact .cons hreply (ih hback)

theorem invariant {P : σ → Prop} (h : Answers host s calls last)
    (hstep : ∀ library args s, P s → P (host.execute library args s).2) (hs : P s) : P last := by
  induction h with
  | nil => exact hs
  | cons _ _ ih => exact ih (hstep _ _ _ hs)

end PluginHost.Answers

/-! ## Modules that were loaded -/

namespace ModuleCache

variable {μ : Type} {cache : ModuleCache μ}

/-- The record names every module that is there, and none of them twice. -/
structure Sound (cache : ModuleCache μ) : Prop where
  nodup : cache.record.Nodup
  mem_iff : ∀ name, name ∈ cache.record ↔ (cache.modules.get? name).isSome

theorem sound_empty : (empty : ModuleCache μ).Sound where
  nodup := .nil
  mem_iff _ := by simp [empty]

/-- What fetching a module does: it is there already, or it is loaded and recorded, or its
code fails. -/
theorem fetch_cases (cache : ModuleCache μ) (l : Library μ) :
    (∃ m, cache.modules.get? l.name = some m ∧ cache.fetch l = (.ok m, cache)) ∨
      (∃ m, cache.modules.get? l.name = none ∧ l.load = .ok m ∧
        cache.fetch l = (.ok m, ⟨cache.modules.set l.name m, cache.record ++ [l.name]⟩)) ∨
      ∃ f, l.load = .error f ∧ cache.fetch l = (.error f, cache) := by
  rw [fetch]
  cases cache.modules.get? l.name with
  | some m => exact .inl ⟨m, rfl, rfl⟩
  | none =>
      cases l.load with
      | ok m => exact .inr (.inl ⟨m, rfl, rfl, rfl⟩)
      | error f => exact .inr (.inr ⟨f, rfl, rfl⟩)

theorem fetch_sound (h : cache.Sound) (l : Library μ) : (cache.fetch l).2.Sound := by
  rcases cache.fetch_cases l with ⟨m, -, hfetch⟩ | ⟨m, hget, -, hfetch⟩ | ⟨f, -, hfetch⟩
  · rw [hfetch]
    exact h
  · rw [hfetch]
    have hnew : l.name ∉ cache.record := by simp [h.mem_iff, hget]
    refine ⟨?_, fun name => ?_⟩
    · rw [List.nodup_append]
      refine ⟨h.nodup, by simp, fun old hold new hmem heq => ?_⟩
      rw [List.mem_singleton] at hmem
      exact hnew (hmem ▸ heq ▸ hold)
    · rw [List.mem_append, List.mem_singleton, h.mem_iff, Bindings.get?_set]
      by_cases hname : l.name = name
      · simp [hname]
      · simp [hname, Ne.symm hname]
  · rw [hfetch]
    exact h

theorem get?_fetch {l : Library μ} {m : μ} (h : (cache.fetch l).1 = .ok m) :
    (cache.fetch l).2.modules.get? l.name = some m := by
  rcases cache.fetch_cases l with ⟨m', hget, hfetch⟩ | ⟨m', -, -, hfetch⟩ | ⟨f, -, hfetch⟩
  · rw [hfetch] at h ⊢
    cases h
    exact hget
  · rw [hfetch] at h ⊢
    cases h
    exact Bindings.get?_set_self ..
  · rw [hfetch] at h
    cases h

theorem keep_sound (h : cache.Sound) {name : String} {old : μ} (m : μ)
    (hold : cache.modules.get? name = some old) : (cache.keep name m).Sound where
  nodup := h.nodup
  mem_iff other := by
    rw [keep, h.mem_iff, Bindings.get?_set]
    by_cases hname : name = other
    · subst hname
      simp [hold]
    · rw [if_neg hname]

end ModuleCache

namespace Folder

variable {μ : Type} {folder : Folder μ} {library : String} {l : Library μ} {cache : ModuleCache μ}

/-- The library that a call by this name reaches. -/
def resolve? (folder : Folder μ) (library : String) : Option (Library μ) :=
  folder.libraries?.bind (find? · library)

theorem execute_unresolved (h : folder.resolve? library = none) (args : List Value)
    (cache : ModuleCache μ) :
    ∃ f, folder.execute library args cache = (.error f, cache) := by
  rw [resolve?] at h
  rw [execute]
  cases hlibraries : folder.libraries? with
  | none => exact ⟨_, rfl⟩
  | some libraries =>
      rw [hlibraries] at h
      simp only [show find? libraries library = none from h]
      exact ⟨_, rfl⟩

theorem execute_resolved (h : folder.resolve? library = some l) (args : List Value)
    (cache : ModuleCache μ) :
    folder.execute library args cache =
      match (cache.fetch l).1 with
      | .error f => (.error f, (cache.fetch l).2)
      | .ok m =>
          match l.entry? m with
          | none => (refuse (.missingEntry library), (cache.fetch l).2)
          | some entry =>
              (accept library (entry args).1, (cache.fetch l).2.keep l.name (entry args).2) := by
  rw [resolve?] at h
  rw [execute]
  cases hlibraries : folder.libraries? with
  | none =>
      rw [hlibraries] at h
      cases h
  | some libraries =>
      rw [hlibraries] at h
      simp only [show find? libraries library = some l from h]
      obtain ⟨x, after⟩ := cache.fetch l
      cases x <;> rfl

/-- What a call makes of the modules: nothing, or it fetches one, or it fetches one and
changes it. -/
theorem execute_cases (folder : Folder μ) (library : String) (args : List Value)
    (cache : ModuleCache μ) :
    (folder.execute library args cache).2 = cache ∨
      ∃ l, folder.resolve? library = some l ∧
        ((folder.execute library args cache).2 = (cache.fetch l).2 ∨
          ∃ m m', (cache.fetch l).1 = .ok m ∧
            (folder.execute library args cache).2 = (cache.fetch l).2.keep l.name m') := by
  cases hl : folder.resolve? library with
  | none =>
      obtain ⟨f, hexecute⟩ := execute_unresolved hl args cache
      exact .inl (by rw [hexecute])
  | some l =>
      refine .inr ⟨l, rfl, ?_⟩
      rw [execute_resolved hl]
      cases hfetch : (cache.fetch l).1 with
      | error f => exact .inl rfl
      | ok m =>
          cases hentry : l.entry? m with
          | none => exact .inl (by simp only [hentry])
          | some entry => exact .inr ⟨m, (entry args).2, rfl, by simp only [hentry]⟩

theorem execute_sound (h : cache.Sound) (library : String) (args : List Value) :
    (folder.execute library args cache).2.Sound := by
  rcases execute_cases folder library args cache with hsame | ⟨l, -, hfetched | ⟨m, m', hm, hkept⟩⟩
  · rw [hsame]
    exact h
  · rw [hfetched]
    exact ModuleCache.fetch_sound h l
  · rw [hkept]
    exact ModuleCache.keep_sound (ModuleCache.fetch_sound h l) m' (ModuleCache.get?_fetch hm)

end Folder

/-- No session of calls loads a library twice. -/
theorem PluginHost.Answers.sound {μ : Type} {folder : Folder μ} {cache last : ModuleCache μ}
    {calls : List PluginCall} (h : folder.host.Answers cache calls last) (hcache : cache.Sound) :
    last.Sound :=
  h.invariant (fun library args _ hs => Folder.execute_sound hs library args) hcache

/-! ## Libraries that count -/

section Counting

variable {μ : Type}

/-- The library replies with the number of calls since it was loaded, which its module
knows. -/
structure Library.Counts (l : Library μ) (count : μ → Nat) : Prop where
  load : ∃ m, l.load = .ok m ∧ count m = 0
  entry : ∀ m, ∃ entry, l.entry? m = some entry ∧
    ∀ args, (entry args).1 = .value (.ofInt (count m + 1)) ∧ count (entry args).2 = count m + 1

/-- The number of calls that the module of a name knows of; none before it is loaded. -/
def ModuleCache.tally (cache : ModuleCache μ) (count : μ → Nat) (name : String) : Nat :=
  ((cache.modules.get? name).map count).getD 0

/-- Does the call reach a library of this name? -/
def PluginCall.reaches (folder : Folder μ) (name : String) (c : PluginCall) : Bool :=
  (folder.resolve? c.library).map (·.name) == some name

variable {folder : Folder μ} {library : String} {l : Library μ} {count : μ → Nat}

/-- The module of a library that counts is there when it is called, with its number. -/
theorem ModuleCache.fetch_counts (hl : l.Counts count) (cache : ModuleCache μ) :
    ∃ m, (cache.fetch l).1 = .ok m ∧ count m = cache.tally count l.name := by
  obtain ⟨m₀, hload₀, hcount⟩ := hl.load
  rcases cache.fetch_cases l with ⟨m, hget, hfetch⟩ | ⟨m, hget, hload, hfetch⟩ | ⟨f, hload, -⟩
  · exact ⟨m, by rw [hfetch], by rw [tally, hget]; rfl⟩
  · rw [hload₀] at hload
    cases hload
    exact ⟨m₀, by rw [hfetch], by rw [tally, hget]; exact hcount⟩
  · rw [hload₀] at hload
    cases hload

theorem ModuleCache.tally_fetch {name : String} (h : l.name ≠ name) (cache : ModuleCache μ) :
    (cache.fetch l).2.tally count name = cache.tally count name := by
  rcases cache.fetch_cases l with ⟨m, -, hfetch⟩ | ⟨m, -, -, hfetch⟩ | ⟨f, -, hfetch⟩
  · rw [hfetch]
  · simp only [hfetch, tally, Bindings.get?_set, if_neg h]
  · rw [hfetch]

theorem Folder.execute_counts (h : folder.resolve? library = some l) (hl : l.Counts count)
    (args : List Value) (cache : ModuleCache μ) :
    (folder.execute library args cache).1 = .ok (.ofInt (cache.tally count l.name + 1)) ∧
      (folder.execute library args cache).2.tally count l.name =
        cache.tally count l.name + 1 := by
  obtain ⟨m, hfetch, hm⟩ := ModuleCache.fetch_counts hl cache
  obtain ⟨entry, hentry, hcounts⟩ := hl.entry m
  obtain ⟨hreply, hafter⟩ := hcounts args
  rw [execute_resolved h, hfetch]
  simp only [hentry, hreply, ← hm]
  refine ⟨rfl, ?_⟩
  rw [ModuleCache.tally, ModuleCache.keep, Bindings.get?_set_self]
  exact hafter

theorem Folder.execute_tally {name : String}
    (h : (folder.resolve? library).map (·.name) ≠ some name) (args : List Value)
    (cache : ModuleCache μ) :
    (folder.execute library args cache).2.tally count name = cache.tally count name := by
  rcases execute_cases folder library args cache with
    hsame | ⟨l, hl, hfetched | ⟨m, m', -, hkept⟩⟩
  · rw [hsame]
  · have hname : l.name ≠ name := by simpa [hl] using h
    rw [hfetched, ModuleCache.tally_fetch hname]
  · have hname : l.name ≠ name := by simpa [hl] using h
    rw [hkept, ← ModuleCache.tally_fetch hname cache]
    simp only [ModuleCache.tally, ModuleCache.keep, Bindings.get?_set, if_neg hname]

/-- The replies of a library that counts are consecutive numbers. -/
theorem PluginHost.Answers.counts {name : String} {cache last : ModuleCache μ}
    {calls : List PluginCall} (h : folder.host.Answers cache calls last)
    (hname : ∀ library l, folder.resolve? library = some l → l.name = name → l.Counts count) :
    (calls.filter (·.reaches folder name)).map (·.reply) =
      (List.range' (cache.tally count name + 1) (calls.filter (·.reaches folder name)).length).map
        fun n => .ok (.ofInt n) := by
  induction h with
  | nil => rfl
  | @cons cache last c calls hreply h ih =>
      by_cases hreaches : c.reaches folder name = true
      · rw [List.filter_cons_of_pos hreaches, List.map_cons, List.length_cons, List.range'_succ,
          List.map_cons]
        obtain ⟨l, hl, hlname⟩ : ∃ l, folder.resolve? c.library = some l ∧ l.name = name := by
          simpa [PluginCall.reaches] using hreaches
        subst hlname
        obtain ⟨hnumber, htally⟩ := Folder.execute_counts hl (hname _ l hl rfl) c.args cache
        have hc : c.reply = .ok (.ofInt (cache.tally count l.name + 1)) := hreply.symm.trans hnumber
        have hrest := ih
        rw [show (folder.host.execute c.library c.args cache).2.tally count l.name = _ from htally]
          at hrest
        rw [hc, hrest]
        rfl
      · rw [List.filter_cons_of_neg hreaches, ih]
        have hother : (folder.resolve? c.library).map (·.name) ≠ some name := by
          simpa [PluginCall.reaches] using hreaches
        rw [show (folder.host.execute c.library c.args cache).2.tally count name = _ from
          Folder.execute_tally hother c.args cache]

end Counting

end PolarCalc
