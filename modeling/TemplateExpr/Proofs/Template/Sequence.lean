import TemplateExpr.Proofs.Template.Checks

namespace TemplateExpr

variable {σ α β : Type}

def Run.Records (x : Run (σ × List Event) α) (y : Run σ α) : Prop :=
  ∀ s, ∃ events, ∀ log, x (s, log) = ((y s).1, (y s).2, log ++ events)

namespace Run.Records

theorem pure (a : α) : Records (σ := σ) (pure a) (pure a) :=
  fun s => ⟨[], fun log => by simp⟩

theorem bind {x : Run (σ × List Event) α} {y : Run σ α} {f : α → Run (σ × List Event) β}
    {g : α → Run σ β} (h : Records x y) (hf : ∀ a, Records (f a) (g a)) :
    Records (x >>= f) (y >>= g) := by
  intro s
  obtain ⟨events, hx⟩ := h s
  simp only [Run.bind_apply, hx]
  rcases y s with ⟨e | a, t⟩
  · exact ⟨events, fun log => rfl⟩
  · obtain ⟨events', hf⟩ := hf a t
    exact ⟨events ++ events', fun log => by simp only [hf, List.append_assoc]⟩

section

variable {evaluate : String → Run (σ × List Event) Value} {evaluate' : String → Run σ Value}

theorem interpolate (h : ∀ source, Records (evaluate source) (evaluate' source)) (last : List Char)
    (parts : List (List Char × List Char)) :
    Records (Engine.interpolate evaluate last parts) (Engine.interpolate evaluate' last parts) := by
  induction parts with
  | nil => exact pure (String.ofList last)
  | cons p parts ih =>
      obtain ⟨before, inner⟩ := p
      exact (h (String.ofList inner)).bind fun v => ih.bind fun rest => pure _

theorem render (h : ∀ source, Records (evaluate source) (evaluate' source)) (d : Delimiters)
    (s : String) : Records (Engine.render d evaluate s) (Engine.render d evaluate' s) := by
  have hwoven := (interpolate h (d.segments s.toList).last (d.segments s.toList).parts).bind
    fun text => pure (Value.text text)
  unfold Engine.render
  rcases d.placeholder? (Text.trim s.toList) with _ | ⟨_ | _, inner, _ | _⟩
  · exact pure (Value.text s)
  · exact h (String.ofList inner)
  all_goals exact hwoven

theorem renderAll (h : ∀ source, Records (evaluate source) (evaluate' source)) (d : Delimiters)
    (ss : List String) :
    Records (Engine.renderAll d evaluate ss) (Engine.renderAll d evaluate' ss) := by
  induction ss with
  | nil => exact pure []
  | cons s ss ih => exact (render h d s).bind fun v => ih.bind fun vs => pure (v :: vs)

end

theorem execute (e : Engine) (host : Host σ) (t : Template) (data : Bindings) (receiver : Value) :
    Records (e.execute host.recording t data receiver) (e.execute host t data receiver) := by
  have h (source : String) : Records (e.evaluator.evaluate host.recording source data receiver)
      (e.evaluator.evaluate host source data receiver) :=
    fun s => ⟨_, e.evaluator.recording_apply host source data receiver s⟩
  cases t with
  | single s => exact (render h e.delimiters s).bind fun v => pure (Output.single v)
  | list ss => exact (renderAll h e.delimiters ss).bind fun vs => pure (Output.list vs)

end Run.Records

def Output.values : Output → List Value
  | .single v => [v]
  | .list vs => vs

namespace Engine

def Joins (e : Engine) (T T₁ T₂ : Template) : Prop :=
  ∀ (σ : Type) (host : Host σ) (data : Bindings) (receiver : Value),
    e.execute host T data receiver = (do
      let a ← e.execute host T₁ data receiver
      let b ← e.execute host T₂ data receiver
      pure (.list (a.values ++ b.values)))

variable (e : Engine) (host : Host σ) (data : Bindings) (receiver : Value)

theorem recording_apply (t : Template) (s : σ) (log : List Event) :
    e.execute host.recording t data receiver (s, log) =
      ((e.execute host t data receiver s).1, (e.execute host t data receiver s).2,
        log ++ e.events host t data receiver s) := by
  obtain ⟨events, h⟩ := Run.Records.execute e host t data receiver s
  rw [Engine.events, h, h, List.nil_append]

theorem renderAll_eq_mapM (d : Delimiters) (evaluate : String → Run σ Value) (ss : List String) :
    renderAll d evaluate ss = ss.mapM (render d evaluate) := by
  induction ss with
  | nil => rfl
  | cons s ss ih => rw [renderAll, List.mapM_cons, ih]

theorem execute_single_cases (x : String) (s : σ) :
    (∃ v t, e.execute host (.single x) data receiver s = (.ok (.single v), t)) ∨
      ∃ f t, e.execute host (.single x) data receiver s = (.error f, t) := by
  rw [execute_single, Run.map_apply]
  rcases render e.delimiters (fun source => e.evaluator.evaluate host source data receiver) x s
    with ⟨f | v, t⟩
  · exact .inr ⟨f, t, rfl⟩
  · exact .inl ⟨v, t, rfl⟩

-- Executions of single templates in turn, all of which succeed: the values that they result in, what
-- is put on record, and the state that the last one leaves.
inductive Runs : List String → σ → List Value → List Event → σ → Prop
  | nil (s : σ) : Runs [] s [] [] s
  | cons {x xs s t u v vs events} :
      e.execute host (.single x) data receiver s = (.ok (.single v), t) → Runs xs t vs events u →
      Runs (x :: xs) s (v :: vs) (e.events host (.single x) data receiver s ++ events) u

section

variable {e host data receiver} {x : String} {xs : List String} {s t u : σ}
  {vs : List Value} {events : List Event} {f : Fault} {o : Output} {T T₁ T₂ : Template}

theorem execute_recording_of_eq {r : Except Fault Output}
    (h : e.execute host T data receiver s = (r, t)) :
    e.execute host.recording T data receiver (s, []) = (r, t, e.events host T data receiver s) := by
  rw [recording_apply, h, List.nil_append]

namespace Joins

theorem append (e : Engine) (xs ys : List String) :
    e.Joins (.list (xs ++ ys)) (.list xs) (.list ys) := by
  intro σ host data receiver
  simp [execute, renderAll_eq_mapM, Output.values]

theorem cons (e : Engine) (x : String) (xs : List String) :
    e.Joins (.list (x :: xs)) (.single x) (.list xs) := by
  intro σ host data receiver
  simp [execute, renderAll, Output.values]

theorem execute_of_ok (hj : e.Joins T T₁ T₂)
    (h : e.execute host T₁ data receiver s = (.ok o, t)) :
    e.execute host T data receiver s =
      ((e.execute host T₂ data receiver t).1.map fun p => .list (o.values ++ p.values),
        (e.execute host T₂ data receiver t).2) := by
  rw [hj, Run.bind_apply, h]
  exact Run.map_apply _ _ t

theorem execute_of_error (hj : e.Joins T T₁ T₂)
    (h : e.execute host T₁ data receiver s = (.error f, t)) :
    e.execute host T data receiver s = (.error f, t) := by
  rw [hj, Run.bind_apply, h]

theorem events_of_ok (hj : e.Joins T T₁ T₂)
    (h : e.execute host T₁ data receiver s = (.ok o, t)) :
    e.events host T data receiver s =
      e.events host T₁ data receiver s ++ e.events host T₂ data receiver t := by
  rw [Engine.events, hj.execute_of_ok (execute_recording_of_eq h), recording_apply]

theorem events_of_error (hj : e.Joins T T₁ T₂)
    (h : e.execute host T₁ data receiver s = (.error f, t)) :
    e.events host T data receiver s = e.events host T₁ data receiver s := by
  rw [Engine.events, hj.execute_of_error (execute_recording_of_eq h)]

end Joins

theorem Runs.length_eq (h : Runs e host data receiver xs s vs events t) :
    vs.length = xs.length := by
  induction h with
  | nil => rfl
  | cons _ _ ih => rw [List.length_cons, List.length_cons, ih]

theorem Runs.execute_eq (h : Runs e host data receiver xs s vs events t) :
    e.execute host (.list xs) data receiver s = (.ok (.list vs), t) := by
  induction h with
  | nil => rfl
  | cons hx _ ih =>
      rw [(Joins.cons e _ _).execute_of_ok hx, ih]
      rfl

theorem Runs.events_eq (h : Runs e host data receiver xs s vs events t) :
    e.events host (.list xs) data receiver s = events := by
  induction h with
  | nil => rfl
  | cons hx _ ih => rw [(Joins.cons e _ _).events_of_ok hx, ih]

theorem Runs.execute_of_error (h : Runs e host data receiver xs s vs events t)
    (hx : e.execute host (.single x) data receiver t = (.error f, u)) (after : List String) :
    e.execute host (.list (xs ++ x :: after)) data receiver s = (.error f, u) := by
  rw [(Joins.append e _ _).execute_of_ok h.execute_eq, (Joins.cons e x after).execute_of_error hx]
  rfl

theorem Runs.events_of_error (h : Runs e host data receiver xs s vs events t)
    (hx : e.execute host (.single x) data receiver t = (.error f, u)) (after : List String) :
    e.events host (.list (xs ++ x :: after)) data receiver s =
      events ++ e.events host (.single x) data receiver t := by
  rw [(Joins.append e _ _).events_of_ok h.execute_eq, (Joins.cons e x after).events_of_error hx,
    h.events_eq]

end

theorem runs_or_fails (xs : List String) (s : σ) :
    (∃ vs events t, Runs e host data receiver xs s vs events t) ∨
      ∃ before x after vs events t f u, xs = before ++ x :: after ∧
        Runs e host data receiver before s vs events t ∧
          e.execute host (.single x) data receiver t = (.error f, u) := by
  induction xs generalizing s with
  | nil => exact .inl ⟨[], [], s, .nil s⟩
  | cons x xs ih =>
      rcases e.execute_single_cases host data receiver x s with ⟨v, t, hx⟩ | ⟨f, u, hx⟩
      · rcases ih t with ⟨vs, events, u, h⟩ | ⟨before, y, after, vs, events, u, f, w, rfl, h, hy⟩
        · exact .inl ⟨v :: vs, _, u, .cons hx h⟩
        · exact .inr ⟨x :: before, y, after, v :: vs, _, u, f, w, rfl, .cons hx h, hy⟩
      · exact .inr ⟨[], x, xs, [], [], s, f, u, rfl, .nil s, hx⟩

theorem execute_list_sequential (xs : List String) (s : σ) :
    ((∃ vs events t, Runs e host data receiver xs s vs events t ∧ vs.length = xs.length ∧
        e.execute host (.list xs) data receiver s = (.ok (.list vs), t) ∧
        e.events host (.list xs) data receiver s = events) ∨
      ∃ before x after vs events t f u, xs = before ++ x :: after ∧
        Runs e host data receiver before s vs events t ∧
        e.execute host (.single x) data receiver t = (.error f, u) ∧
        e.execute host (.list xs) data receiver s = (.error f, u) ∧
        e.events host (.list xs) data receiver s =
          events ++ e.events host (.single x) data receiver t) ∧
      ∀ ys, e.execute host (.list (xs ++ ys)) data receiver = (do
        let a ← e.execute host (.list xs) data receiver
        let b ← e.execute host (.list ys) data receiver
        pure (.list (a.values ++ b.values))) := by
  refine ⟨?_, fun ys => Joins.append e xs ys σ host data receiver⟩
  rcases e.runs_or_fails host data receiver xs s with
    ⟨vs, events, t, h⟩ | ⟨before, x, after, vs, events, t, f, u, rfl, h, hx⟩
  · exact .inl ⟨vs, events, t, h, h.length_eq, h.execute_eq, h.events_eq⟩
  · exact .inr ⟨before, x, after, vs, events, t, f, u, rfl, h, hx, h.execute_of_error hx after,
      h.events_of_error hx after⟩

end Engine

end TemplateExpr
