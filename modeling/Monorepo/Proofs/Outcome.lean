import Monorepo.Error

/-! Results that may fail, opened by their first step: a success passes its value on, a failure
stops everything after it. These are the rewrite rules every proof about the tool's operations
uses to run them step by step. -/

namespace Monorepo

variable {ε α β : Type}

@[simp] theorem except_ok_bind (a : α) (f : α → Except ε β) : (Except.ok a >>= f) = f a := rfl

@[simp] theorem except_error_bind (e : ε) (f : α → Except ε β) :
    (Except.error e >>= f : Except ε β) = .error e := rfl

@[simp] theorem except_pure (a : α) : (pure a : Except ε α) = .ok a := rfl

@[simp] theorem except_throw (e : ε) : (throw e : Except ε α) = .error e := rfl

theorem except_bind_eq_ok {x : Except ε α} {f : α → Except ε β} {b : β} :
    (x >>= f) = .ok b ↔ ∃ a, x = .ok a ∧ f a = .ok b := by
  cases x <;> simp

@[simp] theorem except_map_ok (f : α → β) (a : α) : (Except.ok a : Except ε α).map f = .ok (f a) :=
  rfl

@[simp] theorem except_map_error (f : α → β) (e : ε) :
    (Except.error e : Except ε α).map f = .error e := rfl

theorem except_map_eq_ok {x : Except ε α} {f : α → β} {b : β} :
    x.map f = .ok b ↔ ∃ a, x = .ok a ∧ f a = b := by
  cases x <;> simp

theorem mapM_of_ok {l : List α} {f : α → Except ε β} (g : α → β)
    (each : ∀ x ∈ l, f x = .ok (g x)) : l.mapM f = .ok (l.map g) := by
  induction l with
  | nil => rfl
  | cons x rest ih =>
    simp [each x (by simp), ih fun y member => each y (by simp [member])]

theorem mapM_map {γ : Type} {l : List α} {f : α → Except ε β} {bs : List β} {g : β → γ}
    {h : α → γ} (undone : ∀ a ∈ l, ∀ b, f a = .ok b → g b = h a) (read : l.mapM f = .ok bs) :
    bs.map g = l.map h := by
  induction l generalizing bs with
  | nil =>
    cases read
    rfl
  | cons a rest ih =>
    simp only [List.mapM_cons, except_bind_eq_ok, except_pure] at read
    obtain ⟨b, first, later, walked, done⟩ := read
    cases done
    simp [undone a List.mem_cons_self b first,
      ih (fun a' member => undone a' (List.mem_cons_of_mem a member)) walked]

theorem filterMapM_of_ok {l : List α} {f : α → Except ε (Option β)} (g : α → Option β)
    (each : ∀ x ∈ l, f x = .ok (g x)) : l.filterMapM f = .ok (l.filterMap g) := by
  induction l with
  | nil => rfl
  | cons x rest ih =>
    have later := ih fun y member => each y (by simp [member])
    cases kept : g x <;> simp [each x (by simp), kept, later]

/-- A flattening traversal whose every step succeeds with a list related to its input succeeds;
what follows from those lists, laid one after another each beside its input, holds of its
result. -/
theorem flatMapM_of_ok {l : List α} {f : α → Except ε (List β)} {Q : List β → Prop}
    (P : α → List β → Prop) (each : ∀ x ∈ l, ∃ ys, f x = .ok ys ∧ P x ys)
    (combine : ∀ groups : List (α × List β), groups.map (·.1) = l → (∀ g ∈ groups, P g.1 g.2) →
      Q (groups.flatMap (·.2))) :
    ∃ ys, l.flatMapM f = .ok ys ∧ Q ys := by
  induction l generalizing Q with
  | nil => exact ⟨[], rfl, combine [] rfl (by simp)⟩
  | cons x rest ih =>
    obtain ⟨ys, first, holds⟩ := each x (by simp)
    obtain ⟨later, walked, result⟩ := @ih (fun later => Q (ys ++ later))
      (fun y member => each y (by simp [member]))
      (fun groups inputs related => by
        have whole := combine ((x, ys) :: groups) (by simp [inputs]) (by
          rintro g (_ | ⟨_, member⟩)
          · exact holds
          · exact related g member)
        simpa using whole)
    exact ⟨ys ++ later, by simp [first, walked], result⟩

theorem mem_of_flatMapM_eq_ok {l : List α} {f : α → Except ε (List β)} {ys : List β}
    (done : l.flatMapM f = .ok ys) {y : β} (member : y ∈ ys) :
    ∃ x ∈ l, ∃ zs, f x = .ok zs ∧ y ∈ zs := by
  induction l generalizing ys with
  | nil =>
    simp only [List.flatMapM_nil, except_pure, Except.ok.injEq] at done
    simp [← done] at member
  | cons x rest ih =>
    simp only [List.flatMapM_cons, except_pure, except_bind_eq_ok, Except.ok.injEq] at done
    obtain ⟨first, here, later, walked, rfl⟩ := done
    rcases List.mem_append.mp member with inFirst | inLater
    · exact ⟨x, by simp, first, here, inFirst⟩
    · obtain ⟨z, inRest, found⟩ := ih walked inLater
      exact ⟨z, by simp [inRest], found⟩

theorem flatMapM_eq_ok {l : List α} {f : α → Except ε (List β)} {ys : List β}
    (done : l.flatMapM f = .ok ys) :
    ∃ groups : List (α × List β), groups.map (·.1) = l ∧ (∀ g ∈ groups, f g.1 = .ok g.2) ∧
      ys = groups.flatMap (·.2) := by
  induction l generalizing ys with
  | nil =>
    simp only [List.flatMapM_nil, except_pure, Except.ok.injEq] at done
    exact ⟨[], rfl, by simp, by simp [← done]⟩
  | cons x rest ih =>
    simp only [List.flatMapM_cons, except_pure, except_bind_eq_ok, Except.ok.injEq] at done
    obtain ⟨first, here, later, walked, rfl⟩ := done
    obtain ⟨groups, inputs, each, rfl⟩ := ih walked
    refine ⟨(x, first) :: groups, by simp [inputs], fun g member => ?_, by simp⟩
    rcases List.mem_cons.mp member with rfl | inRest
    · exact here
    · exact each g inRest

theorem flatMapM_sublist {l : List α} {f g : α → Except ε (List β)} {ys zs : List β}
    (first : l.flatMapM f = .ok ys) (second : l.flatMapM g = .ok zs)
    (each : ∀ x ∈ l, ∀ a b, f x = .ok a → g x = .ok b → a.Sublist b) : ys.Sublist zs := by
  induction l generalizing ys zs with
  | nil =>
    simp only [List.flatMapM_nil, except_pure, Except.ok.injEq] at first second
    rw [← first]
    exact List.nil_sublist zs
  | cons x rest ih =>
    simp only [List.flatMapM_cons, except_pure, except_bind_eq_ok, Except.ok.injEq] at first second
    obtain ⟨a, here, as, later, rfl⟩ := first
    obtain ⟨b, there, bs, later', rfl⟩ := second
    exact (each x List.mem_cons_self a b here there).append
      (ih later later' fun y member => each y (List.mem_cons_of_mem x member))

theorem forIn_checks_eq_ok {l : List α} {body : α → PUnit.{1} → Except ε (ForInStep PUnit)}
    (bad : α → Bool) (passes : ∀ x, bad x = false → body x PUnit.unit = .ok (.yield PUnit.unit))
    (fails : ∀ x, bad x = true → ∃ e, body x PUnit.unit = .error e) :
    forIn l PUnit.unit body = .ok PUnit.unit ↔ ∀ x ∈ l, bad x = false := by
  induction l with
  | nil => simp
  | cons x rest ih =>
    cases check : bad x
    · simp [passes x check, check, ih]
    · obtain ⟨e, failed⟩ := fails x check
      simp [failed, check]

theorem forIn_invariant {items : List α} {body : α → β → Except ε (ForInStep β)}
    (I : β → Prop) (step : ∀ x ∈ items, ∀ b r, I b → body x b = .ok r → I r.value) :
    ∀ {init b : β}, I init → forIn items init body = .ok b → I b := by
  induction items with
  | nil =>
    intro init b holds run
    cases run
    exact holds
  | cons x xs ih =>
    intro init b holds run
    rw [List.forIn_cons] at run
    obtain ⟨r, stepped, rest⟩ := except_bind_eq_ok.mp run
    have next := step x List.mem_cons_self init r holds stepped
    cases r with
    | done b' =>
      cases rest
      exact next
    | yield b' => exact ih (fun y member => step y (List.mem_cons_of_mem _ member)) next rest

end Monorepo
