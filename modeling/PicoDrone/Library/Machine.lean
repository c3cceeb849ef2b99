import Mathlib.Data.Option.Basic
import Mathlib.Order.MinMax
import Mathlib.Tactic.Common

/-!
# Labelled machines and their runs

A machine is a partial step function on states and labels: `step s l` is the state
that label `l` leads to, and `none` where `l` is not enabled. A run takes a list of
labels in order. The rules below are the inductions over runs: an invariant that every step
keeps (`run_invariant`), an invariant that every step meeting a side condition keeps
(`run_invariant_along`), an invariant that exactly the steps meeting a side condition keep
(`always_iff_along`), and a machine that never gets stuck and follows a total specification
(`run_refines`).
-/

set_option autoImplicit false

namespace PicoDrone.Library

/-- A partial step function on states `σ` and labels `ι`. -/
structure Machine (σ ι : Type*) where
  step : σ → ι → Option σ

namespace Machine

variable {σ ι : Type*} (M : Machine σ ι)

/-- The state after taking the labels in order, if every one of them is enabled. -/
def run : σ → List ι → Option σ
  | s, [] => some s
  | s, l :: ls => (M.step s l).bind fun t => run t ls

/-- Every step of the run from a state along the labels is taken where `P` holds. -/
def Along (P : σ → ι → Prop) : σ → List ι → Prop
  | _, [] => True
  | s, l :: ls => P s l ∧ ∀ t, M.step s l = some t → Along P t ls

/-- Every state of the run from a state along the labels satisfies `I`. -/
def Always (I : σ → Prop) : σ → List ι → Prop
  | s, [] => I s
  | s, l :: ls => I s ∧ ∀ t, M.step s l = some t → Always I t ls

@[simp] theorem run_nil (s : σ) : M.run s [] = some s := rfl

theorem along_cons {P : σ → ι → Prop} {s t : σ} {l : ι} {ls : List ι} (hP : P s l)
    (hs : M.step s l = some t) (hrest : M.Along P t ls) : M.Along P s (l :: ls) := by
  refine ⟨hP, fun u hu => ?_⟩
  rw [hs] at hu
  obtain rfl := Option.some.inj hu
  exact hrest

theorem Along.and {M : Machine σ ι} {P Q : σ → ι → Prop} {s : σ} {ls : List ι}
    (hP : M.Along P s ls) (hQ : M.Along Q s ls) : M.Along (fun s l => P s l ∧ Q s l) s ls := by
  induction ls generalizing s with
  | nil => trivial
  | cons l ls ih => exact ⟨⟨hP.1, hQ.1⟩, fun t ht => ih (hP.2 t ht) (hQ.2 t ht)⟩

/-- INTERNAL: conditions that agree on every step agree on every run. -/
theorem along_congr {P Q : σ → ι → Prop} (h : ∀ s l, P s l ↔ Q s l) {s : σ} {ls : List ι} :
    M.Along P s ls ↔ M.Along Q s ls := by
  induction ls generalizing s with
  | nil => exact Iff.rfl
  | cons l ls ih =>
    apply and_congr (h s l)
    exact forall_congr' fun t => imp_congr_right fun _ => ih

/-- INTERNAL: a condition that the labels meet in every state. -/
theorem along_of_forall {P : σ → ι → Prop} {s : σ} {ls : List ι} (h : ∀ l ∈ ls, ∀ t, P t l) :
    M.Along P s ls := by
  induction ls generalizing s with
  | nil => trivial
  | cons l ls ih =>
    refine ⟨h l List.mem_cons_self s, fun t _ => ih ?_⟩
    intro k hk
    exact h k (List.mem_cons_of_mem l hk)

theorem run_cons_eq_some {s t : σ} {l : ι} {ls : List ι} :
    M.run s (l :: ls) = some t ↔ ∃ u, M.step s l = some u ∧ M.run u ls = some t := by
  simp [run, Option.bind_eq_some_iff]

theorem run_append_eq_some {s t : σ} {ls ls' : List ι} :
    M.run s (ls ++ ls') = some t ↔ ∃ u, M.run s ls = some u ∧ M.run u ls' = some t := by
  induction ls generalizing s with
  | nil => simp
  | cons l ls ih =>
    simp only [List.cons_append, run_cons_eq_some, ih]
    constructor
    · rintro ⟨u, hu, v, hv, ht⟩
      exact ⟨v, ⟨u, hu, hv⟩, ht⟩
    · rintro ⟨v, ⟨u, hu, hv⟩, ht⟩
      exact ⟨u, hu, v, hv, ht⟩

theorem run_append {s t u : σ} {ls ls' : List ι} (h : M.run s ls = some t)
    (h' : M.run t ls' = some u) : M.run s (ls ++ ls') = some u :=
  (M.run_append_eq_some).mpr ⟨t, h, h'⟩

/-- INTERNAL: the condition on the steps of two runs in sequence. -/
theorem along_append {P : σ → ι → Prop} {s t : σ} {ls ls' : List ι} (h : M.Along P s ls)
    (hrun : M.run s ls = some t) (h' : M.Along P t ls') : M.Along P s (ls ++ ls') := by
  induction ls generalizing s with
  | nil =>
    obtain rfl : s = t := by simpa using hrun
    exact h'
  | cons l ls ih =>
    obtain ⟨u, hu, hrest⟩ := M.run_cons_eq_some.mp hrun
    exact M.along_cons h.1 hu (ih (h.2 u hu) hrest)

/-- INTERNAL: an invariant kept by every step that meets `P` is kept by every run
whose steps all meet `P`. -/
theorem run_invariant_along (I : σ → Prop) (P : σ → ι → Prop)
    (hstep : ∀ s l t, I s → P s l → M.step s l = some t → I t)
    {s t : σ} {ls : List ι} (hs : I s) (hP : M.Along P s ls) (hrun : M.run s ls = some t) :
    I t := by
  induction ls generalizing s with
  | nil =>
    obtain rfl : s = t := by simpa using hrun
    exact hs
  | cons l ls ih =>
    obtain ⟨u, hu, hrest⟩ := M.run_cons_eq_some.mp hrun
    exact ih (hstep s l u hs hP.1 hu) (hP.2 u hu) hrest

/-- INTERNAL: an invariant kept by every step is kept by every run. -/
theorem run_invariant (I : σ → Prop) (hstep : ∀ s l t, I s → M.step s l = some t → I t)
    {s t : σ} {ls : List ι} (hs : I s) (hrun : M.run s ls = some t) : I t := by
  induction ls generalizing s with
  | nil =>
    obtain rfl : s = t := by simpa using hrun
    exact hs
  | cons l ls ih =>
    obtain ⟨u, hu, hrest⟩ := M.run_cons_eq_some.mp hrun
    exact ih (hstep s l u hs hu) hrest

/-- INTERNAL: if a step from a good state leads to a good state exactly where `P` holds, a run
stays good exactly as long as its steps meet `P`. `J` is what all steps keep. -/
theorem always_iff_along (J I : σ → Prop) (P : σ → ι → Prop)
    (hJ : ∀ s l t, J s → M.step s l = some t → J t)
    (hstep : ∀ s l t, J s → I s → M.step s l = some t → (I t ↔ P s l))
    {s t : σ} {ls : List ι} (hj : J s) (hi : I s) (hrun : M.run s ls = some t) :
    M.Always I s ls ↔ M.Along P s ls := by
  have hhead : ∀ s ls, M.Always I s ls → I s := by
    intro s ls h
    cases ls with
    | nil => exact h
    | cons l ls => exact h.1
  induction ls generalizing s with
  | nil => exact ⟨fun _ => trivial, fun _ => hi⟩
  | cons l ls ih =>
    obtain ⟨u, hu, hrest⟩ := M.run_cons_eq_some.mp hrun
    have hju := hJ s l u hj hu
    have hiff := hstep s l u hj hi hu
    have honly : ∀ v, M.step s l = some v → u = v := fun v hv =>
      Option.some.inj (hu.symm.trans hv)
    constructor
    · rintro ⟨-, hall⟩
      have hiu := hhead u ls (hall u hu)
      refine ⟨hiff.mp hiu, fun v hv => ?_⟩
      rw [← honly v hv]
      exact (ih hju hiu hrest).mp (hall u hu)
    · rintro ⟨hP, hall⟩
      have hiu := hiff.mpr hP
      refine ⟨hi, fun v hv => ?_⟩
      rw [← honly v hv]
      exact (ih hju hiu hrest).mpr (hall u hu)

/-- INTERNAL: where every label is enabled, a condition on the labels is one on all of them. -/
theorem along_iff_forall {P : ι → Prop} (htotal : ∀ s l, ∃ t, M.step s l = some t) {s : σ}
    {ls : List ι} : M.Along (fun _ l => P l) s ls ↔ ∀ l ∈ ls, P l := by
  constructor
  · intro h
    induction ls generalizing s with
    | nil => simp
    | cons l ls ih =>
      obtain ⟨t, ht⟩ := htotal s l
      exact List.forall_mem_cons.mpr ⟨h.1, ih (h.2 t ht)⟩
  · intro h
    exact M.along_of_forall fun l hl _ => h l hl

theorem exists_run (htotal : ∀ s l, ∃ t, M.step s l = some t) (s : σ) (ls : List ι) :
    ∃ t, M.run s ls = some t := by
  induction ls generalizing s with
  | nil => exact ⟨s, rfl⟩
  | cons l ls ih =>
    obtain ⟨u, hu⟩ := htotal s l
    obtain ⟨t, ht⟩ := ih u
    exact ⟨t, M.run_cons_eq_some.mpr ⟨u, hu, ht⟩⟩

/-- INTERNAL: a map of the states under which the steps agree, whether they are taken or not,
maps the runs. -/
theorem run_map {τ : Type*} {N : Machine τ ι} (f : σ → τ)
    (hstep : ∀ s l, N.step (f s) l = (M.step s l).map f) (s : σ) (ls : List ι) :
    N.run (f s) ls = (M.run s ls).map f := by
  induction ls generalizing s with
  | nil => rfl
  | cons l ls ih =>
    rw [run, run, hstep]
    cases M.step s l with
    | none => rfl
    | some t => exact ih t

/-- INTERNAL: where every admitted label is enabled and follows a total specification, every
run of admitted labels exists and follows it. -/
theorem run_refines {τ : Type*} (spec : τ → ι → τ) (Rel : τ → σ → Prop) (P : ι → Prop)
    (hstep : ∀ a s l, Rel a s → P l → ∃ t, M.step s l = some t ∧ Rel (spec a l) t)
    {a : τ} {s : σ} {ls : List ι} (hs : Rel a s) (hP : ∀ l ∈ ls, P l) :
    ∃ t, M.run s ls = some t ∧ Rel (ls.foldl spec a) t := by
  induction ls generalizing a s with
  | nil => exact ⟨s, rfl, hs⟩
  | cons l ls ih =>
    obtain ⟨u, hu, hrel⟩ := hstep a s l hs (hP l List.mem_cons_self)
    obtain ⟨t, ht, hrest⟩ := ih hrel fun k hk => hP k (List.mem_cons_of_mem l hk)
    exact ⟨t, M.run_cons_eq_some.mpr ⟨u, hu, ht⟩, hrest⟩

/-- INTERNAL: where the steps that meet `P` follow a total specification, every run of such steps
follows it. -/
theorem run_simulates {τ : Type*} (spec : τ → ι → τ) (Rel : τ → σ → Prop) (P : σ → ι → Prop)
    (hstep : ∀ a s l t, Rel a s → P s l → M.step s l = some t → Rel (spec a l) t)
    {a : τ} {s t : σ} {ls : List ι} (hs : Rel a s) (hP : M.Along P s ls)
    (hrun : M.run s ls = some t) : Rel (ls.foldl spec a) t := by
  induction ls generalizing a s with
  | nil =>
    obtain rfl : s = t := by simpa using hrun
    exact hs
  | cons l ls ih =>
    obtain ⟨u, hu, hrest⟩ := M.run_cons_eq_some.mp hrun
    exact ih (hstep a s l u hs hP.1 hu) (hP.2 u hu) hrest

/-- INTERNAL: where the steps that meet `P` keep a condition and every other one breaks it, exactly
the runs of steps that meet `P` keep it. `Rel` is what the steps that meet `P` keep besides. -/
theorem always_iff_simulates {τ : Type*} (spec : τ → ι → τ) (Rel : τ → σ → Prop) (I : σ → Prop)
    (P : σ → ι → Prop)
    (hstep : ∀ a s l t, Rel a s → P s l → M.step s l = some t → Rel (spec a l) t)
    (hgood : ∀ a s, Rel a s → I s) (hbad : ∀ s l t, ¬ P s l → M.step s l = some t → ¬ I t)
    {a : τ} {s t : σ} {ls : List ι} (hs : Rel a s) (hrun : M.run s ls = some t) :
    M.Always I s ls ↔ M.Along P s ls := by
  induction ls generalizing a s with
  | nil => exact ⟨fun _ => trivial, fun _ => hgood a s hs⟩
  | cons l ls ih =>
    obtain ⟨u, hu, hrest⟩ := M.run_cons_eq_some.mp hrun
    have honly : ∀ v, M.step s l = some v → u = v := fun v hv =>
      Option.some.inj (hu.symm.trans hv)
    have hhead : M.Always I u ls → I u := by
      intro h
      cases ls with
      | nil => exact h
      | cons l ls => exact h.1
    constructor
    · rintro ⟨-, hall⟩
      have hP : P s l := by
        by_contra hnot
        exact hbad s l u hnot hu (hhead (hall u hu))
      refine ⟨hP, fun v hv => ?_⟩
      rw [← honly v hv]
      exact (ih (hstep a s l u hs hP hu) hrest).mp (hall u hu)
    · rintro ⟨hP, hall⟩
      refine ⟨hgood a s hs, fun v hv => ?_⟩
      rw [← honly v hv]
      exact (ih (hstep a s l u hs hP hu) hrest).mpr (hall u hu)

/-- CONTRACT: a mark that every step lowers to the new level is, at the end of a run, the lowest
level on the way. -/
theorem run_lowest {α : Type*} [LinearOrder α] (low level : σ → α) (I : σ → Prop)
    (hkeep : ∀ s l t, I s → M.step s l = some t → I t)
    (hlow : ∀ s l t, I s → M.step s l = some t → low t = min (low s) (level t)) {s t : σ}
    {ls : List ι} (hs : I s) (hle : low s ≤ level s) (hrun : M.run s ls = some t) :
    low t ≤ low s ∧
      (∀ ls₁ ls₂ u, ls = ls₁ ++ ls₂ → M.run s ls₁ = some u → low t ≤ level u) ∧
      (low t = low s ∨
        ∃ ls₁ ls₂ u, ls = ls₁ ++ ls₂ ∧ M.run s ls₁ = some u ∧ low t = level u) := by
  induction ls generalizing s with
  | nil =>
    obtain rfl := Option.some.inj hrun
    refine ⟨le_rfl, fun ls₁ ls₂ u hsplit hu => ?_, Or.inl rfl⟩
    obtain ⟨rfl, -⟩ := List.append_eq_nil_iff.mp hsplit.symm
    obtain rfl := Option.some.inj hu
    exact hle
  | cons l ls ih =>
    obtain ⟨r, hr, hrest⟩ := M.run_cons_eq_some.mp hrun
    have hmin := hlow s l r hs hr
    obtain ⟨hdown, hall, hsome⟩ :=
      ih (hkeep s l r hs hr) (by rw [hmin]; exact min_le_right _ _) hrest
    have hrs : low r ≤ low s := by rw [hmin]; exact min_le_left _ _
    refine ⟨hdown.trans hrs, fun ls₁ ls₂ u hsplit hu => ?_, ?_⟩
    · cases ls₁ with
      | nil =>
        obtain rfl := Option.some.inj hu
        exact hdown.trans (hrs.trans hle)
      | cons l' ls₁ =>
        obtain ⟨rfl, rfl⟩ := List.cons.inj hsplit
        obtain ⟨r', hr', hu'⟩ := M.run_cons_eq_some.mp hu
        obtain rfl := Option.some.inj (hr.symm.trans hr')
        exact hall ls₁ ls₂ u rfl hu'
    · obtain heq | ⟨ls₁, ls₂, u, rfl, hu, heq⟩ := hsome
      · obtain hcase | hcase := min_choice (low s) (level r)
        · exact Or.inl (heq.trans (hmin.trans hcase))
        · exact Or.inr ⟨[l], ls, r, rfl, M.run_cons_eq_some.mpr ⟨r, hr, rfl⟩,
            heq.trans (hmin.trans hcase)⟩
      · exact Or.inr ⟨l :: ls₁, ls₂, u, rfl, M.run_cons_eq_some.mpr ⟨r, hr, hu⟩, heq⟩

end Machine

end PicoDrone.Library
