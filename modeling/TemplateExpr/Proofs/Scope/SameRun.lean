import TemplateExpr.Proofs.Scope.Effective

namespace TemplateExpr

variable {σ : Type}

def DenyList.extend (d : DenyList) (names : List String) : DenyList :=
  ⟨d.extra ++ names⟩

theorem DenyList.contains_extend (d : DenyList) (names : List String) (name : String) :
    (d.extend names).contains name = (d.contains name || decide (name ∈ names)) := by
  simp only [contains, extend, List.mem_append, ← or_assoc, Bool.decide_or]

def Table.without {α : Type} (t : Table α) (names : List String) : Table α :=
  t.filter fun p => p.1 ∉ names

theorem Table.lookup_without {α : Type} (t : Table α) (names : List String) (name : String) :
    (t.without names).lookup name = if name ∈ names then none else t.lookup name := by
  induction t with
  | nil => simp [without]
  | cons p t ih =>
      obtain ⟨key, v⟩ := p
      rw [without] at ih ⊢
      by_cases hkey : key ∈ names
      · have hne : name ∉ names → (name == key) = false := by
          intro hn
          simp only [beq_eq_false_iff_ne]
          rintro rfl
          exact hn hkey
        rw [List.filter_cons_of_neg (by simpa using hkey), ih]
        split
        · rfl
        · rename_i hn
          rw [List.lookup_cons, hne hn]
      · rw [List.filter_cons_of_pos (by simpa using hkey), List.lookup_cons, List.lookup_cons, ih]
        split
        · rename_i heq
          have heq : name = key := by simpa using heq
          rw [heq, if_neg hkey]
        · rfl

namespace Bindings

variable {b b' : Bindings} {d : DenyList} {name other : String}

def without (b : Bindings) (names : List String) : Bindings :=
  ⟨b.fields.without names, b.actions.without names⟩

def withEntry (b : Bindings) (name : String) (entry : Value) : Bindings :=
  { b with actions := b.actions.insert name entry }

theorem effective_of_denied (h : d.contains name) : b.effective d name = .absent := by
  rw [effective, if_pos h]

theorem effective_congr (hf : b.field? name = b'.field? name)
    (ha : b.action? name = b'.action? name) : b.effective d name = b'.effective d name := by
  rw [effective, effective, hf, ha]

theorem effective_extend (names : List String) :
    b.effective (d.extend names) name = (b.without names).effective d name := by
  by_cases hn : name ∈ names
  · have hd : (d.extend names).contains name := by simp [DenyList.contains_extend, hn]
    rw [effective_of_denied hd, effective]
    simp [without, action?, field?, Table.lookup_without, hn]
  · have hd : (d.extend names).contains name = d.contains name := by
      simp [DenyList.contains_extend, hn]
    rw [effective, effective, hd]
    simp [without, action?, field?, Table.lookup_without, hn]

theorem effective_withField_of_ne (h : name ≠ other) (v : Value) :
    (b.withField other v).effective d name = b.effective d name := by
  refine effective_congr ?_ rfl
  rw [field?, withField, Table.lookup_insert, if_neg h, field?]

theorem effective_withEntry_of_ne (h : name ≠ other) (v : Value) :
    (b.withEntry other v).effective d name = b.effective d name := by
  refine effective_congr rfl ?_
  rw [action?, withEntry, Table.lookup_insert, if_neg h, action?]

theorem effective_without_of_ne (h : name ≠ other) :
    (b.without [other]).effective d name = b.effective d name := by
  refine effective_congr ?_ ?_
  · simp [field?, without, Table.lookup_without, h]
  · simp [action?, without, Table.lookup_without, h]

theorem ofAction_of_not_isFunction {v : Value} (h : v.isFunction = false) :
    Effective.ofAction v = .notCallable := by
  cases v with
  | function f => simp [Value.isFunction] at h
  | _ => rfl

theorem effective_withEntry_of_not_isFunction {v w : Value} (ha : b.action? other = some v)
    (hv : v.isFunction = false) (hw : w.isFunction = false) :
    (b.withEntry other w).effective d name = b.effective d name := by
  by_cases h : name = other
  · have hentry : (b.withEntry name w).action? name = some w := by
      rw [action?, withEntry, Table.lookup_insert, if_pos rfl]
    subst h
    rw [effective, effective, hentry, ha]
    simp only [ofAction_of_not_isFunction hv, ofAction_of_not_isFunction hw]
  · exact effective_withEntry_of_ne h w

end Bindings

def mentioned (limit : Nat) (source : String) : List String :=
  match Expr.parse limit source with
  | .ok e => e.names
  | .error _ => []

def SameRun (host : Host σ) (source : String) (receiver : Value) (e₁ : Evaluator) (b₁ : Bindings)
    (e₂ : Evaluator) (b₂ : Bindings) : Prop :=
  e₁.evaluate host source b₁ receiver = e₂.evaluate host source b₂ receiver ∧
    ∀ s, e₁.events host source b₁ receiver s = e₂.events host source b₂ receiver s

theorem evaluate_congr {limit : Nat} {source : String} {d₁ d₂ : DenyList} {b₁ b₂ : Bindings}
    (h : ∀ n ∈ mentioned limit source, b₁.effective d₁ n = b₂.effective d₂ n) (host : Host σ)
    (receiver : Value) :
    (⟨d₁, limit⟩ : Evaluator).evaluate host source b₁ receiver =
      (⟨d₂, limit⟩ : Evaluator).evaluate host source b₂ receiver := by
  simp only [Evaluator.evaluate, Evaluator.parse]
  cases hp : Expr.parse limit source with
  | error m => rfl
  | ok e =>
      have hn : ∀ n ∈ e.names, b₁.effective d₁ n = b₂.effective d₂ n := by
        rwa [mentioned, hp] at h
      have he : e.evaluate host ⟨b₁, receiver, d₁⟩ = e.evaluate host ⟨b₂, receiver, d₂⟩ := by
        apply Scope.evaluate_congr
        · rfl
        · exact hn
      simp only [pure_bind, he]

theorem SameRun.of_effective {limit : Nat} {source : String} {d₁ d₂ : DenyList} {b₁ b₂ : Bindings}
    (h : ∀ n ∈ mentioned limit source, b₁.effective d₁ n = b₂.effective d₂ n) (host : Host σ)
    (receiver : Value) : SameRun host source receiver ⟨d₁, limit⟩ b₁ ⟨d₂, limit⟩ b₂ := by
  constructor
  · exact evaluate_congr h host receiver
  · intro s
    rw [Evaluator.events, Evaluator.events, evaluate_congr h host.recording receiver]

section

variable {limit : Nat} {source : String} {d : DenyList} {b : Bindings} {name : String}

theorem SameRun.of_change {b' : Bindings} (hd : d.contains name ∨ name ∉ mentioned limit source)
    (hne : ∀ n, n ≠ name → b'.effective d n = b.effective d n) (host : Host σ) (receiver : Value) :
    SameRun host source receiver ⟨d, limit⟩ b' ⟨d, limit⟩ b := by
  refine of_effective (fun n hn => ?_) host receiver
  by_cases h : n = name
  · subst h
    rcases hd with hd | hd
    · rw [Bindings.effective_of_denied hd, Bindings.effective_of_denied hd]
    · exact absurd hn hd
  · exact hne n h

end

theorem effective_bindings_determine_run (host : Host σ) (limit : Nat) (source : String)
    (receiver : Value) :
    (∀ d₁ d₂ b₁ b₂,
      (∀ n ∈ mentioned limit source, Bindings.effective b₁ d₁ n = Bindings.effective b₂ d₂ n) →
      SameRun host source receiver ⟨d₁, limit⟩ b₁ ⟨d₂, limit⟩ b₂) ∧
    (∀ d b names,
      SameRun host source receiver ⟨d.extend names, limit⟩ b ⟨d, limit⟩ (b.without names)) ∧
    (∀ d b name, d.contains name ∨ name ∉ mentioned limit source →
      (∀ v, SameRun host source receiver ⟨d, limit⟩ (b.withField name v) ⟨d, limit⟩ b) ∧
      (∀ v, SameRun host source receiver ⟨d, limit⟩ (b.withEntry name v) ⟨d, limit⟩ b) ∧
      SameRun host source receiver ⟨d, limit⟩ (b.without [name]) ⟨d, limit⟩ b) ∧
    (∀ d b name v w, Bindings.action? b name = some v → v.isFunction = false →
      w.isFunction = false →
      SameRun host source receiver ⟨d, limit⟩ (b.withEntry name w) ⟨d, limit⟩ b) := by
  refine ⟨?_, ?_, ?_, ?_⟩
  · intro d₁ d₂ b₁ b₂ h
    exact SameRun.of_effective h host receiver
  · intro d b names
    exact SameRun.of_effective (fun n _ => Bindings.effective_extend names) host receiver
  · intro d b name hd
    refine ⟨fun v => ?_, fun v => ?_, ?_⟩
    · exact SameRun.of_change hd (fun n h => Bindings.effective_withField_of_ne h v) host receiver
    · exact SameRun.of_change hd (fun n h => Bindings.effective_withEntry_of_ne h v) host receiver
    · exact SameRun.of_change hd (fun n h => Bindings.effective_without_of_ne h) host receiver
  · intro d b name v w ha hv hw
    exact SameRun.of_effective
      (fun n _ => Bindings.effective_withEntry_of_not_isFunction ha hv hw) host receiver

theorem effective_bindings_determine_run_of_name :
    let b : Bindings := ⟨[("a", .integer 1), ("secret", .integer 2)], [("d", .integer 5)]⟩
    SameRun Host.isolated "a" .undefined ⟨{}, 64⟩ b ⟨⟨["secret"]⟩, 64⟩ ⟨[("a", .integer 1)], []⟩ ∧
      SameRun Host.isolated "a" .undefined ⟨{}, 64⟩ (b.withField "secret" .null) ⟨{}, 64⟩ b ∧
      SameRun Host.isolated "a" .undefined ⟨{}, 64⟩ (b.withEntry "d" .null) ⟨{}, 64⟩ b := by
  intro b
  have hnames : mentioned 64 "a" = ["a"] := by with_unfolding_all rfl
  obtain ⟨heffective, -, hunmentioned, hentry⟩ :=
    effective_bindings_determine_run Host.isolated 64 "a" .undefined
  refine ⟨?_, ?_, ?_⟩
  · refine heffective {} ⟨["secret"]⟩ b ⟨[("a", .integer 1)], []⟩ fun n hn => ?_
    rw [hnames, List.mem_singleton] at hn
    subst hn
    rfl
  · refine (hunmentioned {} b "secret" (Or.inr ?_)).1 .null
    rw [hnames]
    decide
  · exact hentry {} b "d" (.integer 5) .null rfl rfl rfl

end TemplateExpr
