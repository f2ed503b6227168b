import Dlx.UntilError
import Mathlib.Data.List.Forall2
import Mathlib.Data.Nat.Bitwise

/-!
# Computations that succeed

What it means that a computation that can fail gives a result: each of its steps gave one. A
sequence of steps is taken apart with these lemmas, and never by unfolding the sequence.

Where it does not matter why a computation fails, its outcome is seen as an option, and a view of
what it gives is made of the views of its steps.
-/

namespace Dlx

variable {ε ε' σ τ κ α β γ : Type}

theorem ok_bind (a : α) (f : α → Except ε β) : (Except.ok a >>= f) = f a := rfl

theorem bind_eq_ok {x : Except ε α} {f : α → Except ε β} {b : β} :
    (x >>= f) = .ok b ↔ ∃ a, x = .ok a ∧ f a = .ok b := by
  cases x with
  | error e => simp [bind, Except.bind]
  | ok a => simp [bind, Except.bind]

theorem bind_eq_error {x : Except ε α} {f : α → Except ε β} {e : ε} :
    (x >>= f) = .error e ↔ x = .error e ∨ ∃ a, x = .ok a ∧ f a = .error e := by
  cases x with
  | error e' => simp [bind, Except.bind]
  | ok a => simp [bind, Except.bind]

theorem map_eq_ok {x : Except ε α} {f : α → β} {b : β} :
    x.map f = .ok b ↔ ∃ a, x = .ok a ∧ f a = b := by
  cases x with
  | error e => simp [Except.map]
  | ok a => simp [Except.map]

theorem mapError_eq_ok {x : Except ε α} {f : ε → ε'} {a : α} :
    x.mapError f = .ok a ↔ x = .ok a := by
  cases x with
  | error e => simp [Except.mapError]
  | ok a => simp [Except.mapError]

theorem map_eq_error {x : Except ε α} {f : α → β} {e : ε} : x.map f = .error e ↔ x = .error e := by
  cases x with
  | error e' => simp [Except.map]
  | ok a => simp [Except.map]

theorem mapError_eq_error {x : Except ε α} {f : ε → ε'} {e : ε'} :
    x.mapError f = .error e ↔ ∃ e', x = .error e' ∧ f e' = e := by
  cases x with
  | error e' => simp [Except.mapError]
  | ok a => simp [Except.mapError]

theorem pure_eq_ok {a b : α} : (pure a : Except ε α) = .ok b ↔ a = b := by
  simp [pure, Except.pure]

/-- A list goes through a step that can fail when every element does, and the results stand in
order. -/
theorem mapM_eq_ok {f : α → Except ε β} {xs : List α} {ys : List β} :
    xs.mapM f = .ok ys ↔ List.Forall₂ (fun x y => f x = .ok y) xs ys := by
  induction xs generalizing ys with
  | nil =>
      rw [List.mapM_nil, pure_eq_ok, List.forall₂_nil_left_iff, eq_comm]
  | cons x xs ih =>
      rw [List.mapM_cons, bind_eq_ok, List.forall₂_cons_left_iff]
      constructor
      · rintro ⟨y, hy, hrest⟩
        rcases bind_eq_ok.1 hrest with ⟨rest, hmap, hpure⟩
        exact ⟨y, rest, hy, ih.1 hmap, (pure_eq_ok.1 hpure).symm⟩
      · rintro ⟨y, rest, hy, hmap, rfl⟩
        exact ⟨y, hy, bind_eq_ok.2 ⟨rest, ih.2 hmap, rfl⟩⟩

/-- A list gets stuck in such a step at the first element that does not go through. -/
theorem mapM_eq_error {f : α → Except ε β} {xs : List α} {e : ε} :
    xs.mapM f = .error e ↔
      ∃ front x back, xs = front ++ x :: back ∧ (∀ y ∈ front, ∃ b, f y = .ok b) ∧
        f x = .error e := by
  induction xs with
  | nil => simp [pure, Except.pure]
  | cons x xs ih =>
      rw [List.mapM_cons]
      -- The first element that fails is this one, or it is the first one of the rest.
      cases hx : f x with
      | error e' =>
          constructor
          · intro h
            cases h
            exact ⟨[], x, xs, rfl, by simp, hx⟩
          · rintro ⟨front, y, back, hxs, hfront, hy⟩
            cases front with
            | nil =>
                cases hxs
                exact congrArg Except.error (Except.error.inj (hx.symm.trans hy))
            | cons z front =>
                cases hxs
                rcases hfront x List.mem_cons_self with ⟨b, hb⟩
                cases hx.symm.trans hb
      | ok b =>
          have htail : (Except.ok b >>= fun b => xs.mapM f >>= fun bs => pure (b :: bs)) =
              Except.error e ↔
              xs.mapM f = .error e := by
            cases xs.mapM f with
            | error e' => simp [bind, Except.bind]
            | ok bs => simp [bind, Except.bind, pure, Except.pure]
          rw [htail, ih]
          constructor
          · rintro ⟨front, y, back, rfl, hfront, hy⟩
            exact ⟨x :: front, y, back, rfl, List.forall_mem_cons.2 ⟨⟨b, hx⟩, hfront⟩, hy⟩
          · rintro ⟨front, y, back, hxs, hfront, hy⟩
            cases front with
            | nil =>
                cases hxs
                cases hx.symm.trans hy
            | cons z front =>
                cases hxs
                exact ⟨front, y, back, rfl, fun z hz => hfront z (List.mem_cons_of_mem x hz), hy⟩

/-- An element with no results adds nothing to those of the others. -/
theorem flatten_mapM_insert {f : α → Except ε (List β)} {a : α} (h : f a = .ok [])
    (front back : List α) :
    ((front ++ a :: back).mapM f).map List.flatten = ((front ++ back).mapM f).map List.flatten := by
  rw [List.mapM_append, List.mapM_append, List.mapM_cons, h, ok_bind]
  cases front.mapM f with
  | error e => rfl
  | ok fronts =>
      rw [ok_bind, ok_bind]
      cases back.mapM f with
      | error e => rfl
      | ok backs => simp [Except.map, ok_bind, pure, Except.pure]

theorem exists_mem_of_forall₂ {r : α → β → Prop} {xs : List α} {ys : List β} {x : α}
    (h : List.Forall₂ r xs ys) (hx : x ∈ xs) : ∃ y ∈ ys, r x y := by
  induction h with
  | nil => cases hx
  | @cons a b xs ys hab _ ih =>
      rcases List.mem_cons.1 hx with rfl | hrest
      · exact ⟨b, List.mem_cons_self, hab⟩
      · rcases ih hrest with ⟨y, hy, hxy⟩
        exact ⟨y, List.mem_cons_of_mem b hy, hxy⟩

theorem forall₂_trans {r : α → β → Prop} {q : β → γ → Prop} {both : α → γ → Prop}
    (htrans : ∀ a b c, r a b → q b c → both a c) {xs : List α} {ys : List β} {zs : List γ}
    (h : List.Forall₂ r xs ys) (h' : List.Forall₂ q ys zs) : List.Forall₂ both xs zs := by
  induction h generalizing zs with
  | nil =>
      cases h'
      exact .nil
  | cons hxy _ ih =>
      cases h' with
      | cons hyz hrest => exact .cons (htrans _ _ _ hxy hyz) (ih hrest)

theorem eq_map_of_forall₂ {f : α → β} {xs : List α} {ys : List β}
    (h : List.Forall₂ (fun x y => y = f x) xs ys) :
    ys = xs.map f := by
  induction h with
  | nil => rfl
  | cons hxy _ ih => rw [hxy, ih, List.map_cons]

/-- A key that stands in a list of entries is found there, with one of its values. -/
theorem exists_lookup_of_mem [BEq κ] [LawfulBEq κ] {entries : List (κ × β)} {entry : κ × β}
    (h : entry ∈ entries) :
    ∃ value, entries.lookup entry.1 = some value ∧ (entry.1, value) ∈ entries := by
  have hsome : (entries.lookup entry.1).isSome = true :=
    List.lookup_isSome_iff.2 ⟨entry, h, beq_self_eq_true entry.1⟩
  rcases Option.isSome_iff_exists.1 hsome with ⟨value, hvalue⟩
  rcases List.lookup_eq_some_iff.1 hvalue with ⟨front, back, hsplit, -⟩
  exact ⟨value, hvalue, by simp [hsplit]⟩

/-! ## Runs along a list -/

theorem runUntil_append (step : σ → α → Except ε σ) (s : σ) (front back : List α) :
    runUntil step s (front ++ back) =
      match runUntil step s front with
      | (s', none) => runUntil step s' back
      | (s', some e) => (s', some e) := by
  induction front generalizing s with
  | nil => rfl
  | cons x front ih =>
      rw [List.cons_append, runUntil, runUntil]
      cases step s x with
      | error e => rfl
      | ok s' => exact ih s'

/-- A run ends with an error at the first element that its step refuses, in the state in front of
it. -/
theorem runUntil_eq_error {step : σ → α → Except ε σ} {s s' : σ} {xs : List α} {e : ε} :
    runUntil step s xs = (s', some e) ↔
      ∃ front x back, xs = front ++ x :: back ∧ runUntil step s front = (s', none) ∧
        step s' x = .error e := by
  constructor
  · intro h
    induction xs generalizing s with
    | nil => cases h
    | cons x xs ih =>
        rw [runUntil] at h
        -- A step that succeeds goes to the front of the part that the hypothesis of induction
        -- finds.
        cases hstep : step s x with
        | error e' =>
            rw [hstep] at h
            cases h
            exact ⟨[], x, xs, rfl, rfl, hstep⟩
        | ok s₁ =>
            rw [hstep] at h
            rcases ih h with ⟨front, y, back, rfl, hfront, hy⟩
            refine ⟨x :: front, y, back, rfl, ?_, hy⟩
            rw [runUntil, hstep]
            exact hfront
  · rintro ⟨front, x, back, rfl, hfront, hx⟩
    rw [runUntil_append, hfront]
    dsimp only
    rw [runUntil, hx]

/-- In a run without an error, every element went through its step. -/
theorem exists_ok_of_runUntil {step : σ → α → Except ε σ} {s s' : σ} {xs : List α} {x : α}
    (h : runUntil step s xs = (s', none)) (hx : x ∈ xs) : ∃ s₁ s₂, step s₁ x = .ok s₂ := by
  rcases List.append_of_mem hx with ⟨front, back, rfl⟩
  rw [runUntil_append] at h
  split at h
  · rename_i s₁ _
    rw [runUntil] at h
    cases hstep : step s₁ x with
    | error e =>
        rw [hstep] at h
        cases h
    | ok s₂ => exact ⟨s₁, s₂, hstep⟩
  · cases h

/-- A step that does all that another one does takes its runs to the same end. -/
theorem runUntil_of_ok {step step' : σ → α → Except ε σ}
    (hstep : ∀ s x s', step s x = .ok s' → step' s x = .ok s') {s s' : σ} {xs : List α}
    (h : runUntil step s xs = (s', none)) : runUntil step' s xs = (s', none) := by
  induction xs generalizing s with
  | nil => exact h
  | cons x xs ih =>
      rw [runUntil] at h ⊢
      cases hx : step s x with
      | error e =>
          rw [hx] at h
          cases h
      | ok s₁ =>
          rw [hx] at h
          rw [hstep s x s₁ hx]
          exact ih h

/-! ## Views of outcomes -/

theorem toOption_eq_some {x : Except ε α} {a : α} : x.toOption = some a ↔ x = .ok a := by
  cases x with
  | error e => simp [Except.toOption]
  | ok b => simp [Except.toOption]

theorem toOption_bind (x : Except ε α) (f : α → Except ε β) :
    (x >>= f).toOption = x.toOption.bind (fun a => (f a).toOption) := by
  cases x with
  | error e => rfl
  | ok a => rfl

theorem toOption_map (x : Except ε α) (f : α → β) : (x.map f).toOption = x.toOption.map f := by
  cases x with
  | error e => rfl
  | ok a => rfl

theorem toOption_mapError (x : Except ε α) (f : ε → ε') : (x.mapError f).toOption = x.toOption := by
  cases x with
  | error e => rfl
  | ok a => rfl

theorem map_toOption_mapM (f : α → Except ε β) (view : β → γ) (xs : List α) :
    (xs.mapM f).toOption.map (List.map view) = xs.mapM (fun x => (f x).toOption.map view) := by
  induction xs with
  | nil => rfl
  | cons x xs ih =>
      rw [List.mapM_cons, List.mapM_cons, ← ih, toOption_bind]
      cases f x with
      | error e => rfl
      | ok y =>
          cases xs.mapM f with
          | error e => rfl
          | ok ys => rfl

/-- What every step keeps, a run keeps. -/
theorem runUntil_invariant {step : σ → α → Except ε σ} {inv : σ → Prop}
    (h : ∀ s x s', inv s → step s x = .ok s' → inv s') {s : σ} (hs : inv s) (xs : List α) :
    inv (runUntil step s xs).1 := by
  induction xs generalizing s with
  | nil => exact hs
  | cons x xs ih =>
      rw [runUntil]
      cases hstep : step s x with
      | error e => exact hs
      | ok s' => exact ih (h s x s' hs hstep)

/-- A view of the state and of the errors that every step respects, as long as some invariant holds,
is respected by a whole run. -/
theorem runUntil_views_of_invariant {step : σ → α → Except ε σ} {step' : τ → α → Except ε' τ}
    {view : σ → τ} {errorView : ε → ε'} {inv : σ → Prop}
    (hinv : ∀ s x s', inv s → step s x = .ok s' → inv s') {xs : List α}
    (h : ∀ x ∈ xs, ∀ s, inv s → ((step s x).map view).mapError errorView = step' (view s) x) {s : σ}
    (hs : inv s) :
    (runUntil step s xs).map view (Option.map errorView) = runUntil step' (view s) xs := by
  induction xs generalizing s with
  | nil => rfl
  | cons x xs ih =>
      rw [runUntil, runUntil, ← h x List.mem_cons_self s hs]
      cases hstep : step s x with
      | error e => rfl
      | ok s' => exact ih (fun y hy => h y (List.mem_cons_of_mem x hy)) (hinv s x s' hs hstep)

theorem runUntil_views {step : σ → α → Except ε σ} {step' : τ → α → Except ε' τ} {view : σ → τ}
    {errorView : ε → ε'} {xs : List α}
    (h : ∀ x ∈ xs, ∀ s, ((step s x).map view).mapError errorView = step' (view s) x) (s : σ) :
    (runUntil step s xs).map view (Option.map errorView) = runUntil step' (view s) xs :=
  runUntil_views_of_invariant (fun _ _ _ _ _ => trivial) (fun x hx s _ => h x hx s) trivial

theorem runUntil_map {step : σ → α → Except ε σ} {step' : τ → α → Except ε τ} {view : σ → τ}
    (h : ∀ s a, (step s a).map view = step' (view s) a) (s : σ) (xs : List α) :
    (runUntil step s xs).map view id = runUntil step' (view s) xs := by
  have hviews : ∀ x ∈ xs, ∀ s, ((step s x).map view).mapError id = step' (view s) x := by
    intro x _ s
    rw [h s x]
    cases step' (view s) x with
    | error e => rfl
    | ok s' => rfl
  rw [← Option.map_id]
  exact runUntil_views hviews s

theorem runUntil_congr {step : σ → α → Except ε σ} {xs ys : List α}
    (h : List.Forall₂ (fun x y => ∀ s, step s x = step s y) xs ys) (s : σ) :
    runUntil step s xs = runUntil step s ys := by
  induction h generalizing s with
  | nil => rfl
  | @cons x y xs ys hxy _ ih =>
      rw [runUntil, runUntil, hxy s]
      cases step s y with
      | error e => rfl
      | ok s' => exact ih s'

/-! ## Two computations -/

/-- Every result of the first computation is also given by the second. -/
def Preserves (x y : Except ε α) : Prop :=
  ∀ a, x = .ok a → y = .ok a

namespace Preserves

theorem refl (x : Except ε α) : Preserves x x :=
  fun _ h => h

theorem bind {x y : Except ε α} {f g : α → Except ε β} (h : Preserves x y)
    (hnext : ∀ a, Preserves (f a) (g a)) :
    Preserves (x >>= f) (y >>= g) := by
  intro b hb
  rcases bind_eq_ok.1 hb with ⟨a, ha, hb⟩
  exact bind_eq_ok.2 ⟨a, h a ha, hnext a b hb⟩

theorem map {x y : Except ε α} (h : Preserves x y) (f : α → β) : Preserves (x.map f) (y.map f) := by
  intro b hb
  rcases map_eq_ok.1 hb with ⟨a, ha, hfa⟩
  exact map_eq_ok.2 ⟨a, h a ha, hfa⟩

theorem mapError {x y : Except ε α} (h : Preserves x y) (f : ε → ε') :
    Preserves (x.mapError f) (y.mapError f) :=
  fun a ha => mapError_eq_ok.2 (h a (mapError_eq_ok.1 ha))

theorem mapM {f g : α → Except ε β} (h : ∀ a, Preserves (f a) (g a)) (xs : List α) :
    Preserves (xs.mapM f) (xs.mapM g) :=
  fun _ hys => mapM_eq_ok.2 ((mapM_eq_ok.1 hys).imp fun a b hb => h a b hb)

end Preserves

/-- Two computations that both fail, with related errors, or both give a result, with related
results. -/
inductive Corresponds (onError : ε → ε' → Prop) (onResult : α → β → Prop) :
    Except ε α → Except ε' β → Prop where
  | error {e : ε} {e' : ε'} (h : onError e e') : Corresponds onError onResult (.error e) (.error e')
  | ok {a : α} {b : β} (h : onResult a b) : Corresponds onError onResult (.ok a) (.ok b)

namespace Corresponds

variable {α' β' : Type} {onError : ε → ε' → Prop}

/-- A computation corresponds to itself. -/
theorem refl {onResult : α → α → Prop} (h : ∀ a, onResult a a) (x : Except ε α) :
    Corresponds Eq onResult x x := by
  cases x with
  | error e => exact .error rfl
  | ok a => exact .ok (h a)

theorem imp {onError' : ε → ε' → Prop} {onResult onResult' : α → β → Prop} {x : Except ε α}
    {y : Except ε' β} (h : Corresponds onError onResult x y)
    (herror : ∀ e e', onError e e' → onError' e e')
    (hresult : ∀ a b, onResult a b → onResult' a b) : Corresponds onError' onResult' x y := by
  cases h with
  | error he => exact .error (herror _ _ he)
  | ok hab => exact .ok (hresult _ _ hab)

theorem same {onError : ε → ε → Prop} (h : ∀ e, onError e e) (x : Except ε α) :
    Corresponds onError Eq x x := by
  refine (refl (fun _ => rfl) x).imp ?_ fun _ _ hab => hab
  rintro e _ rfl
  exact h e

/-- Two computations that correspond by functions are one computation and its image. -/
theorem eq_map {x : Except ε α} {y : Except ε' β} {f : ε → ε'} {g : α → β}
    (h : Corresponds (fun e e' => e' = f e) (fun a b => b = g a) x y) :
    y = (x.map g).mapError f := by
  cases h with
  | error he => exact congrArg Except.error he
  | ok hab => exact congrArg Except.ok hab

theorem toOption_map {onResult : α → β → Prop} {x : Except ε α} {y : Except ε' β} {view : α → γ}
    {view' : β → γ} (h : Corresponds onError onResult x y)
    (hview : ∀ a b, onResult a b → view' b = view a) :
    y.toOption.map view' = x.toOption.map view := by
  cases h with
  | error _ => rfl
  | ok hab => exact congrArg some (hview _ _ hab)

theorem bind {x : Except ε α} {y : Except ε' β} {f : α → Except ε α'} {g : β → Except ε' β'}
    {onStep : α → β → Prop} {onResult : α' → β' → Prop} (h : Corresponds onError onStep x y)
    (hnext : ∀ a b, x = .ok a → onStep a b → Corresponds onError onResult (f a) (g b)) :
    Corresponds onError onResult (x >>= f) (y >>= g) := by
  cases h with
  | error he => exact .error he
  | ok hab => exact hnext _ _ rfl hab

theorem map {x : Except ε α} {y : Except ε' β} {f : α → α'} {g : β → β'} {onStep : α → β → Prop}
    {onResult : α' → β' → Prop} (h : Corresponds onError onStep x y)
    (hresult : ∀ a b, onStep a b → onResult (f a) (g b)) :
    Corresponds onError onResult (x.map f) (y.map g) := by
  cases h with
  | error he => exact .error he
  | ok hab => exact .ok (hresult _ _ hab)

theorem mapError {δ δ' : Type} {x : Except δ α} {y : Except δ' β} {f : δ → ε} {g : δ' → ε'}
    {onInner : δ → δ' → Prop} {onResult : α → β → Prop} (h : Corresponds onInner onResult x y)
    (herror : ∀ e e', onInner e e' → onError (f e) (g e')) :
    Corresponds onError onResult (x.mapError f) (y.mapError g) := by
  cases h with
  | error he => exact .error (herror _ _ he)
  | ok hab => exact .ok hab

theorem mapM {f : α → Except ε α'} {g : β → Except ε' β'} {onResult : α' → β' → Prop} {xs : List α}
    {ys : List β} (h : List.Forall₂ (fun x y => Corresponds onError onResult (f x) (g y)) xs ys) :
    Corresponds onError (List.Forall₂ onResult) (xs.mapM f) (ys.mapM g) := by
  induction h with
  | nil => exact .ok .nil
  | @cons x y xs ys hxy _ ih =>
      rw [List.mapM_cons, List.mapM_cons]
      apply hxy.bind
      intro a b _ hab
      apply ih.bind
      intro as bs _ hrest
      exact .ok (.cons hab hrest)

end Corresponds

end Dlx
