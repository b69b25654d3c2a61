/-!
# Runs that stop at the first error

Collecting and merging go through a list one element at a time, and the first
error ends the run. The lemmas here open one step of such a run, find the step
at which it stopped, take apart a run whose state has two parts that do not look
at each other, say with which errors a run can fail, and compare a run with one
that does the same and fails at times where the other does not.

## Main definitions

* `Outcome.FailsWith` — an outcome that is an error is one of some class
* `Outcome.Follows` — an outcome is that of another run, whose failure may be excused

## Main results

* `Outcome.foldlM_flatMap` — a run over the parts of every element is a run of runs
* `Outcome.exists_step_of_foldlM_eq_error` — where a run stops
* `Outcome.foldlM_pair_eq_ok_iff`, `Outcome.foldlM_pair_eq_error` — a run of two parts is
  a run of each part
* `Outcome.FailsWith.bind`, `Outcome.FailsWith.foldlM` — what a run fails with, step by step
* `Outcome.Follows.bind`, `Outcome.Follows.foldlM` — runs follow each other step by step
-/

namespace Glint.Outcome

variable {α β γ δ ε : Type}

theorem bind_eq_ok {x : Except ε α} {f : α → Except ε β} {b : β} :
    (x >>= f) = .ok b ↔ ∃ a, x = .ok a ∧ f a = .ok b := by
  cases x <;> simp [bind, Except.bind]

theorem bind_eq_error {x : Except ε α} {f : α → Except ε β} {e : ε} :
    (x >>= f) = .error e ↔ x = .error e ∨ ∃ a, x = .ok a ∧ f a = .error e := by
  cases x <;> simp [bind, Except.bind]

theorem map_eq_ok {x : Except ε α} {f : α → β} {b : β} :
    x.map f = .ok b ↔ ∃ a, x = .ok a ∧ f a = b := by
  cases x <;> simp [Except.map]

theorem map_eq_error {x : Except ε α} {f : α → β} {e : ε} :
    x.map f = .error e ↔ x = .error e := by
  cases x <;> simp [Except.map]

theorem pure_eq_ok {a b : α} : (pure a : Except ε α) = .ok b ↔ a = b := by
  simp [pure, Except.pure]

theorem mapError_eq_ok {ε' : Type} {x : Except ε α} {f : ε → ε'} {a : α} :
    x.mapError f = .ok a ↔ x = .ok a := by
  cases x with
  | error cause => exact ⟨nofun, nofun⟩
  | ok b =>
    -- The two sides are outcomes with errors of other types.
    constructor
    · intro h
      exact congrArg Except.ok (Except.ok.inj h)
    · rintro ⟨⟩
      rfl

theorem mapError_eq_error {ε' : Type} {x : Except ε α} {f : ε → ε'} {e : ε'} :
    x.mapError f = .error e ↔ ∃ cause, x = .error cause ∧ f cause = e := by
  cases x with
  | error cause =>
    constructor
    · intro h
      exact ⟨cause, rfl, Except.error.inj h⟩
    · rintro ⟨_, ⟨⟩, rfl⟩
      rfl
  | ok b =>
    constructor
    · exact nofun
    · rintro ⟨_, ⟨⟩, -⟩

/-! ### Runs over a list -/

section Map

variable {f : α → Except ε β} {as : List α} {bs : List β} {e : ε}

/-- Steps that do the same at every element run alike. -/
theorem mapM_congr {g : α → Except ε β} (h : ∀ a ∈ as, f a = g a) : as.mapM f = as.mapM g := by
  induction as with
  | nil => rfl
  | cons a as ih =>
    obtain ⟨ha, has⟩ := List.forall_mem_cons.mp h
    rw [List.mapM_cons, List.mapM_cons, ha, ih has]

/-- What a run makes of each element, seen through some function, is what it makes of all. -/
theorem map_eq_of_mapM_eq_ok {g : β → γ} {h : α → γ}
    (hstep : ∀ a ∈ as, ∀ b, f a = .ok b → g b = h a) (hrun : as.mapM f = .ok bs) :
    bs.map g = as.map h := by
  induction as generalizing bs with
  | nil =>
    cases hrun
    rfl
  | cons a as ih =>
    rw [List.mapM_cons] at hrun
    obtain ⟨b, hb, hrest⟩ := bind_eq_ok.mp hrun
    obtain ⟨bs', hbs', hbs⟩ := bind_eq_ok.mp hrest
    obtain rfl := pure_eq_ok.mp hbs
    obtain ⟨ha, has⟩ := List.forall_mem_cons.mp hstep
    rw [List.map_cons, List.map_cons, ha b hb, ih has hbs']

/-- What a run makes of an element is among what it makes of all. -/
theorem exists_of_mapM_eq_ok (h : as.mapM f = .ok bs) {a : α} (ha : a ∈ as) :
    ∃ b ∈ bs, f a = .ok b := by
  induction as generalizing bs with
  | nil => cases ha
  | cons first as ih =>
    rw [List.mapM_cons] at h
    obtain ⟨b, hb, hrest⟩ := bind_eq_ok.mp h
    obtain ⟨bs', hbs', hbs⟩ := bind_eq_ok.mp hrest
    obtain rfl := pure_eq_ok.mp hbs
    rcases List.mem_cons.mp ha with rfl | ha
    · exact ⟨b, List.mem_cons_self, hb⟩
    · obtain ⟨b', hb', hstep⟩ := ih hbs' ha
      exact ⟨b', List.mem_cons_of_mem _ hb', hstep⟩

/-- A run comes to its end exactly if every element does. -/
theorem exists_mapM_eq_ok_iff : (∃ bs, as.mapM f = .ok bs) ↔ ∀ a ∈ as, ∃ b, f a = .ok b := by
  induction as with
  | nil => exact ⟨fun _ => List.forall_mem_nil _, fun _ => ⟨[], rfl⟩⟩
  | cons a as ih =>
    simp only [List.mapM_cons, bind_eq_ok, pure_eq_ok, List.forall_mem_cons, ← ih]
    constructor
    · rintro ⟨_, b, hb, bs, hbs, rfl⟩
      exact ⟨⟨b, hb⟩, bs, hbs⟩
    · rintro ⟨⟨b, hb⟩, bs, hbs⟩
      exact ⟨b :: bs, b, hb, bs, hbs, rfl⟩

/-- A run fails at the first element that fails. -/
theorem mapM_eq_error_iff :
    as.mapM f = .error e ↔
      ∃ before a after, as = before ++ a :: after ∧ (∀ earlier ∈ before, ∃ b, f earlier = .ok b) ∧
        f a = .error e := by
  induction as with
  | nil =>
    constructor
    · exact nofun
    · rintro ⟨before, a, after, hsplit, -⟩
      simp at hsplit
  | cons first as ih =>
    simp only [List.mapM_cons, bind_eq_error, reduceCtorEq, and_false, exists_false, or_false,
      pure, Except.pure]
    constructor
    · rintro (hfirst | ⟨b, hb, has⟩)
      · exact ⟨[], first, as, rfl, List.forall_mem_nil _, hfirst⟩
      · obtain ⟨before, a, after, rfl, hbefore, ha⟩ := ih.mp has
        exact ⟨first :: before, a, after, rfl, List.forall_mem_cons.mpr ⟨⟨b, hb⟩, hbefore⟩, ha⟩
    · rintro ⟨before, a, after, hsplit, hbefore, ha⟩
      cases before with
      | nil =>
        obtain ⟨rfl, -⟩ := List.cons.inj hsplit
        exact .inl ha
      | cons other before =>
        obtain ⟨rfl, rfl⟩ := List.cons.inj hsplit
        obtain ⟨⟨b, hb⟩, hbefore⟩ := List.forall_mem_cons.mp hbefore
        exact .inr ⟨b, hb, ih.mpr ⟨before, a, after, rfl, hbefore, ha⟩⟩

/-- A run fails at an element. -/
theorem exists_of_mapM_eq_error (h : as.mapM f = .error e) : ∃ a ∈ as, f a = .error e := by
  obtain ⟨before, a, after, rfl, -, ha⟩ := mapM_eq_error_iff.mp h
  exact ⟨a, List.mem_append_right _ List.mem_cons_self, ha⟩

end Map

section Fold

variable {step : δ → α → Except ε δ} {s t : δ} {e : ε}

theorem foldlM_concat_eq_ok {xs : List α} {x : α} :
    (xs ++ [x]).foldlM step s = .ok t ↔ ∃ m, xs.foldlM step s = .ok m ∧ step m x = .ok t := by
  simp [bind_eq_ok]

/-- A run over the parts of every element is a run of runs. -/
theorem foldlM_flatMap (parts : β → List α) (xs : List β) (s : δ) :
    (xs.flatMap parts).foldlM step s = xs.foldlM (fun s x => (parts x).foldlM step s) s := by
  induction xs generalizing s with
  | nil => rfl
  | cons x xs ih => simp [List.foldlM_append, ih]

/-- A run that stops has gone through some elements and fails at the next one. -/
theorem exists_step_of_foldlM_eq_error {xs : List α} (h : xs.foldlM step s = .error e) :
    ∃ before x after m, xs = before ++ x :: after ∧
      before.foldlM step s = .ok m ∧ step m x = .error e := by
  induction xs generalizing s with
  | nil => cases h
  | cons x xs ih =>
    rw [List.foldlM_cons, bind_eq_error] at h
    rcases h with hx | ⟨m, hm, hxs⟩
    · exact ⟨[], x, xs, s, rfl, rfl, hx⟩
    · obtain ⟨before, y, after, m', rfl, hbefore, hy⟩ := ih hxs
      refine ⟨x :: before, y, after, m', rfl, ?_, hy⟩
      rw [List.foldlM_cons, bind_eq_ok]
      exact ⟨m, hm, hbefore⟩

end Fold

/-! ### Runs of two independent parts -/

section Pair

variable {mk : α → β → γ} {step : γ → δ → Except ε γ}
  {first : α → δ → Except ε α} {second : β → δ → Except ε β}

/-- A state made of two parts runs to its end exactly if each part does. -/
theorem foldlM_pair_eq_ok_iff
    (hstep : ∀ a b x, step (mk a b) x = do return mk (← first a x) (← second b x))
    (xs : List δ) (a : α) (b : β) (c : γ) :
    xs.foldlM step (mk a b) = .ok c ↔
      ∃ a' b', xs.foldlM first a = .ok a' ∧ xs.foldlM second b = .ok b' ∧ mk a' b' = c := by
  induction xs generalizing a b with
  | nil => simp [pure_eq_ok]
  | cons x xs ih =>
    simp only [List.foldlM_cons, hstep, bind_eq_ok, pure_eq_ok]
    constructor
    · rintro ⟨_, ⟨a₁, ha, b₁, hb, rfl⟩, h⟩
      obtain ⟨a', b', ha', hb', hc⟩ := (ih a₁ b₁).mp h
      exact ⟨a', b', ⟨a₁, ha, ha'⟩, ⟨b₁, hb, hb'⟩, hc⟩
    · intro ⟨a', b', ⟨a₁, ha, ha'⟩, ⟨b₁, hb, hb'⟩, hc⟩
      exact ⟨mk a₁ b₁, ⟨a₁, ha, b₁, hb, rfl⟩, (ih a₁ b₁).mpr ⟨a', b', ha', hb', hc⟩⟩

/-- A state made of two parts stops with an error at which one of the parts stops. -/
theorem foldlM_pair_eq_error
    (hstep : ∀ a b x, step (mk a b) x = do return mk (← first a x) (← second b x))
    {xs : List δ} {a : α} {b : β} {e : ε} (h : xs.foldlM step (mk a b) = .error e) :
    xs.foldlM first a = .error e ∨ xs.foldlM second b = .error e := by
  induction xs generalizing a b with
  | nil => cases h
  | cons x xs ih =>
    simp only [List.foldlM_cons, hstep, bind_eq_error, bind_eq_ok, pure_eq_ok] at h ⊢
    rcases h with hx | ⟨_, ⟨a₁, ha, b₁, hb, rfl⟩, h⟩
    · rcases hx with ha | ⟨a₁, ha, hb | ⟨b₁, hb, hpure⟩⟩
      · exact .inl (.inl ha)
      · exact .inr (.inl hb)
      · cases hpure
    · rcases ih h with h | h
      · exact .inl (.inr ⟨a₁, ha, h⟩)
      · exact .inr (.inr ⟨b₁, hb, h⟩)

end Pair

/-! ### Classes of errors -/

/-- The outcome is a result, or an error of the class. -/
def FailsWith (E : ε → Prop) (x : Except ε α) : Prop :=
  ∀ e, x = .error e → E e

namespace FailsWith

variable {E E' : ε → Prop} {x : Except ε α}

theorem ok (a : α) : FailsWith E (.ok a : Except ε α) :=
  fun _ he => nomatch he

theorem error {e : ε} (h : E e) : FailsWith E (.error e : Except ε α) := by
  intro e' he
  rwa [← Except.error.inj he]

theorem mono (h : FailsWith E x) (hE : ∀ e, E e → E' e) : FailsWith E' x :=
  fun e he => hE e (h e he)

theorem bind {f : α → Except ε β} (h : FailsWith E x)
    (hgo : ∀ a, x = .ok a → FailsWith E (f a)) : FailsWith E (x >>= f) := by
  intro e he
  rcases bind_eq_error.mp he with hx | ⟨a, hx, hf⟩
  · exact h e hx
  · exact hgo a hx e hf

theorem map {f : α → β} (h : FailsWith E x) : FailsWith E (x.map f) :=
  fun e he => h e (map_eq_error.mp he)

/-- A run over a list fails with an error of a step. -/
theorem foldlM {step : α → δ → Except ε α} {ds : List δ}
    (hstep : ∀ d ∈ ds, ∀ a, FailsWith E (step a d)) (a : α) :
    FailsWith E (ds.foldlM step a) := by
  intro e he
  obtain ⟨before, d, after, a', rfl, -, hd⟩ := exists_step_of_foldlM_eq_error he
  exact hstep d (List.mem_append_right _ List.mem_cons_self) a' e hd

end FailsWith

/-! ### Runs that follow others -/

/-- The second outcome is the first one, seen through `f`, unless the first is an error that is
excused. -/
inductive Follows (excused : ε → Prop) (f : α → β) : Except ε α → Except ε β → Prop
  | ok (a : α) : Follows excused f (.ok a) (.ok (f a))
  | error (e : ε) : Follows excused f (.error e) (.error e)
  | excuse {e : ε} (he : excused e) (y : Except ε β) : Follows excused f (.error e) y

namespace Follows

variable {excused : ε → Prop} {f : α → β} {x : Except ε α} {y : Except ε β}

theorem map_self (excused : ε → Prop) (f : α → β) (x : Except ε α) :
    Follows excused f x (x.map f) := by
  cases x with
  | ok a => exact .ok a
  | error e => exact .error e

theorem refl (excused : ε → Prop) (x : Except ε α) : Follows excused id x x := by
  cases x with
  | ok a => exact .ok a
  | error e => exact .error e

theorem eq_ok (h : Follows excused f x y) {a : α} (hx : x = .ok a) : y = .ok (f a) := by
  subst hx
  cases h
  rfl

/-- Where no error is excused, the second outcome is the first one. -/
theorem eq_map (h : Follows excused f x y) (hx : ∀ e, ¬ excused e) : y = x.map f := by
  cases h with
  | ok a => rfl
  | error e => rfl
  | excuse he => exact absurd he (hx _)

/-- Runs follow each other if what they do next does so. -/
theorem bind {g : γ → δ} {k : α → Except ε γ} {l : β → Except ε δ} (h : Follows excused f x y)
    (hgo : ∀ a, Follows excused g (k a) (l (f a))) : Follows excused g (x >>= k) (y >>= l) := by
  cases h with
  | ok a => exact hgo a
  | error e => exact .error e
  | excuse he => exact .excuse he _

theorem map {g : γ → δ} {u : α → γ} {v : β → δ} (h : Follows excused f x y)
    (hgo : ∀ a, v (f a) = g (u a)) : Follows excused g (x.map u) (y.map v) := by
  cases h with
  | ok a =>
    rw [Except.map, Except.map, hgo]
    exact .ok (u a)
  | error e => exact .error e
  | excuse he => exact .excuse he _

/-- Runs over a list follow each other if their steps do so. -/
theorem foldlM {step : α → δ → Except ε α} {step' : β → δ → Except ε β}
    (hstep : ∀ a d, Follows excused f (step a d) (step' (f a) d)) (ds : List δ) (a : α) :
    Follows excused f (ds.foldlM step a) (ds.foldlM step' (f a)) := by
  induction ds generalizing a with
  | nil => exact .ok a
  | cons d ds ih =>
    rw [List.foldlM_cons, List.foldlM_cons]
    exact (hstep a d).bind ih

end Follows

end Glint.Outcome
